import ClMalloc.PoolRelease
import ClMalloc.Lib.Placement

/-!
# Lists of outstanding pages, keyed by their holders

Whoever uses the pool keeps the pages it was handed in lists of its own. `Keyed` says that
these lists and the page map agree; `Moved` says which pages a step hands over and to whom.
When the map changes by a move, the lists that follow it stay keyed.
-/

namespace ClMalloc

open Placement

variable {T : Type} {kind : ℕ → PageKind T}

/-- The list under each tag holds, without repetition, the pages the map puts there. -/
def Keyed (lists : T → List ℕ) (kind : ℕ → PageKind T) : Prop :=
  ∀ tag, (∀ p, p ∈ lists tag ↔ kind p = .out tag) ∧ (lists tag).Nodup

/-- The listed pages go to `tag`, or back to the pool, and no other page changes hands. -/
def Moved (kind kind' : ℕ → PageKind T) (pages : List ℕ) (tag : Option T) : Prop :=
  ∀ p tg, kind' p = .out tg ↔ (p ∈ pages ∧ tag = some tg) ∨ (p ∉ pages ∧ kind p = .out tg)

/-- Giving one page a tag moves that page. -/
theorem moved_update_out (p : ℕ) (tag : T) :
    Moved kind (Function.update kind p (.out tag)) [p] (some tag) := by
  intro q tg
  by_cases hq : q = p
  · subst hq
    simp
  · simp [hq]

/-- Returning one page to the pool moves that page. -/
theorem moved_update_in {p : ℕ} {k : PageKind T} (hk : k.isOut = false) :
    Moved kind (Function.update kind p k) [p] none := by
  intro q tg
  by_cases hq : q = p
  · subst hq
    cases k <;> simp_all [PageKind.isOut]
  · simp [hq]

/-- Giving the listed pages a tag moves them. -/
theorem moved_setKind_out (pages : List ℕ) (tag : T) :
    Moved kind (setKind kind pages (.out tag)) pages (some tag) := by
  intro q tg
  by_cases hq : q ∈ pages <;> simp [setKind, hq]

/-- Returning the listed pages to the clean list moves them. -/
theorem moved_setKind_clean (pages : List ℕ) :
    Moved kind (setKind kind pages .clean) pages none := by
  intro q tg
  by_cases hq : q ∈ pages <;> simp [setKind, hq]

/-- Registering a segment hands out its first page. -/
theorem moved_registerKind {base : ℕ} {tag : T} {rest : PageKind T} (hrest : rest.isOut = false)
    (houtside : ∀ p ∈ segmentPages base, kind p = .outside) :
    Moved kind (registerKind kind base tag rest) [base] (some tag) := by
  intro q tg
  by_cases hq : q = base
  · subst hq
    simp [registerKind]
  · by_cases hmem : q ∈ segmentPages base
    · have hne : rest ≠ .out tg := by
        rintro rfl
        simp [PageKind.isOut] at hrest
      simp [registerKind, hq, hmem, hne, houtside q hmem]
    · simp [registerKind, hq, hmem]

/-- Releasing a segment whose other pages are free takes back the one page that was out. -/
theorem moved_releaseKind {base p : ℕ} (hp : inSegment base p = true)
    (hfree : ∀ q, inSegment base q = true → q ≠ p → (kind q).isOut = false) :
    Moved kind (releaseKind kind base) [p] none := by
  intro q tg
  by_cases hq : q = p
  · subst hq
    simp [releaseKind, hp]
  · by_cases hin : inSegment base q = true
    · have hne : kind q ≠ .out tg := by
        intro heq
        simpa [heq, PageKind.isOut] using hfree q hin hq
      simp [releaseKind, hin, hq, hne]
    · simp [releaseKind, hin, hq]

variable {kind' : ℕ → PageKind T} {lists : T → List ℕ} {tag : T} {p : ℕ} {pages : List ℕ}

/-- The holder of an outstanding page. -/
def PageKind.holder : PageKind T → Option T
  | .out tag => some tag
  | _ => none

/-- A page has a holder exactly when it is outstanding with it. -/
@[simp] theorem PageKind.holder_eq_some {k : PageKind T} : k.holder = some tag ↔ k = .out tag := by
  cases k <;> simp [PageKind.holder]

/-- Keyed lists are placed by the holders of their pages. -/
theorem keyed_iff_placed : Keyed lists kind ↔ Placed lists fun p => (kind p).holder := by
  simp [Keyed, Placed]

/-- A page is in the list of at most one tag. -/
theorem Keyed.unique (h : Keyed lists kind) {tag' : T} (hp : p ∈ lists tag) (hp' : p ∈ lists tag') :
    tag = tag' :=
  (keyed_iff_placed.mp h).unique hp hp'

/-- A page has no holder exactly when it is not outstanding. -/
theorem PageKind.holder_eq_none {k : PageKind T} : k.holder = none ↔ k.isOut = false := by
  cases k <;> simp [PageKind.holder, PageKind.isOut]

/-- A move of pages relocates them among the holders. -/
theorem Moved.holder_eq {dest : Option T} (h : Moved kind kind' pages dest) :
    (fun p => (kind' p).holder) = relocate (fun p => (kind p).holder) pages dest := by
  funext p
  refine Option.ext fun tg => ?_
  rw [PageKind.holder_eq_some, h, relocate]
  by_cases hp : p ∈ pages <;> simp [hp]

variable [DecidableEq T]

/-- Pages handed out from the pool join the list of their tag. -/
theorem Keyed.give (h : Keyed lists kind) (hmoved : Moved kind kind' pages (some tag))
    (hnodup : pages.Nodup) (hfree : ∀ q ∈ pages, (kind q).isOut = false) :
    Keyed (Function.update lists tag (pages ++ lists tag)) kind' := by
  rw [keyed_iff_placed, hmoved.holder_eq]
  exact (keyed_iff_placed.mp h).enter tag hnodup fun q hq =>
    PageKind.holder_eq_none.mpr (hfree q hq)

/-- Pages returned to the pool leave the list of their tag. -/
theorem Keyed.take (h : Keyed lists kind) (hmoved : Moved kind kind' pages none)
    (hpages : ∀ q ∈ pages, q ∈ lists tag) {rest : List ℕ} (hrest : rest.Nodup)
    (hmem : ∀ q, q ∈ rest ↔ q ∈ lists tag ∧ q ∉ pages) :
    Keyed (Function.update lists tag rest) kind' := by
  rw [keyed_iff_placed, hmoved.holder_eq]
  exact (keyed_iff_placed.mp h).leave tag hpages hrest hmem

/-- One returned page is erased from the list of its tag. -/
theorem Keyed.erase (h : Keyed lists kind) (hmoved : Moved kind kind' [p] none)
    (hp : p ∈ lists tag) :
    Keyed (Function.update lists tag ((lists tag).erase p)) kind' := by
  rw [keyed_iff_placed, hmoved.holder_eq]
  exact (keyed_iff_placed.mp h).erase tag hp

/-- A tag all of whose pages are returned has an empty list. -/
theorem Keyed.drain (h : Keyed lists kind) (tag : T) (hmoved : Moved kind kind' (lists tag) none) :
    Keyed (Function.update lists tag []) kind' :=
  h.take hmoved (fun _ hq => hq) List.nodup_nil fun q => by simp

/-- Pages pass from one tag's list to another's. -/
theorem Keyed.move (h : Keyed lists kind) {tag' : T} (hne : tag' ≠ tag) (hnodup : pages.Nodup)
    (hpages : ∀ q ∈ pages, q ∈ lists tag) {rest : List ℕ} (hrest : rest.Nodup)
    (hmem : ∀ q, q ∈ rest ↔ q ∈ lists tag ∧ q ∉ pages) :
    Keyed (Function.update (Function.update lists tag rest) tag' (pages ++ lists tag'))
      (setKind kind pages (.out tag')) := by
  rw [keyed_iff_placed, (moved_setKind_out pages tag').holder_eq]
  exact (keyed_iff_placed.mp h).move tag hne hnodup hpages hrest hmem

end ClMalloc
