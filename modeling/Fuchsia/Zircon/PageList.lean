import Mathlib.Tactic

/-! `VmPageList` (`zircon/kernel/vm/include/vm/vm_page_list.h`): pages and markers by page
number, and the walks over the pages, gaps and runs of a range. -/
namespace Fuchsia.Zircon

open List

def pageSize : ℕ := 4096

/-- The `zx_status_t` values that the page functions and their callbacks return. -/
inductive Status
  | ok
  | next
  | stop
  | shouldWait
  | badState
  | notFound
  | outOfRange
  | notSupported
  | noMemory
  | alreadyExists
  deriving DecidableEq,Repr

/-- A `VmPageOrMarker`. -/
inductive Slot (P : Type)
  | empty
  | marker
  | page (p : P)
  deriving DecidableEq,Repr

abbrev PageList (P : Type) := ℕ → Slot P

namespace PageList

variable {P σ : Type}

def set (pages : PageList P) (n : ℕ) (slot : Slot P) : PageList P :=
  fun x => if x = n then slot else pages x

variable (pages : PageList P)

lemma set_same (n : ℕ) (slot : Slot P) : pages.set n slot n = slot := if_pos rfl

lemma set_of_ne {n x : ℕ} (slot : Slot P) (h : x ≠ n) : pages.set n slot x = pages x := if_neg h

/-- The callback is called for what is in the slots, in order, until it does not return
`ZX_ERR_NEXT`. -/
def walk (visit : σ → Slot P → ℕ → Status × σ) (pages : PageList P) : List ℕ → σ → Status × σ
  | [],s => (.ok,s)
  | off::rest,s =>
    match pages off with
    | .empty => walk visit pages rest s
    | slot =>
      match visit s slot off with
      | (.next,s) => walk visit pages rest s
      | (.stop,s) => (.ok,s)
      | (status,s) => (status,s)

def forEveryPageInRange (visit : σ → Slot P → ℕ → Status × σ) (pages : PageList P)
    (start stop : ℕ) (s : σ) : Status × σ :=
  walk visit pages (range' start (stop-start)) s

/-- The wrapper that calls `per_gap_func` when the page is not the one expected next. -/
def pageAndGap (perPage : σ → Slot P → ℕ → Status × σ) (perGap : σ → ℕ → ℕ → Status × σ)
    (stop : ℕ) (s : ℕ × σ) (slot : Slot P) (off : ℕ) : Status × (ℕ × σ) :=
  let gap := if s.1 ≠ off then perGap s.2 s.1 off else (.next,s.2)
  let page := if gap.1 = .next then perPage gap.2 slot off else gap
  (page.1,if page.1 = .stop then stop else off+1,page.2)

def forEveryPageAndGapInRange (perPage : σ → Slot P → ℕ → Status × σ)
    (perGap : σ → ℕ → ℕ → Status × σ) (pages : PageList P) (start stop : ℕ) (s : σ) :
    Status × σ :=
  match forEveryPageInRange (pageAndGap perPage perGap stop) pages start stop (start,s) with
  | (.ok,(expected,s)) =>
    if expected ≠ stop then
      match perGap s expected stop with
      | (.next,s) => (.ok,s)
      | (.stop,s) => (.ok,s)
      | (status,s) => (status,s)
    else (.ok,s)
  | (status,(_,s)) => (status,s)

/-- The run of pages that is being tracked, beside the state of the callbacks. -/
structure Run (σ : Type) where
  start : ℕ
  len : ℕ
  state : σ

def Run.finish (run : σ → ℕ → ℕ → Status × σ) (r : Run σ) : Status × Run σ :=
  if r.len > 0 then
    match run r.state r.start (r.start+r.len) with
    | (.stop,s) => (.ok,{ r with state := s })
    | (.next,s) => (.next,{ r with len := 0,state := s })
    | (status,s) => (status,{ r with state := s })
  else (.next,{ r with len := 0 })

def Run.visit (compare : Slot P → Bool) (perPage : σ → Slot P → ℕ → Status × σ)
    (run : σ → ℕ → ℕ → Status × σ) (r : Run σ) (slot : Slot P) (off : ℕ) : Status × Run σ :=
  if compare slot then
    match perPage r.state slot off with
    | (.stop,s) => (.ok,{ r with state := s })
    | (.next,s) => (.next,⟨if r.len = 0 then off else r.start,r.len+1,s⟩)
    | (status,s) => (status,{ r with state := s })
  else r.finish run

def forEveryPageAndContiguousRunInRange (compare : Slot P → Bool)
    (perPage : σ → Slot P → ℕ → Status × σ) (run : σ → ℕ → ℕ → Status × σ) (pages : PageList P)
    (start stop : ℕ) (s : σ) : Status × σ :=
  match forEveryPageAndGapInRange (Run.visit compare perPage run) (fun r _ _ => r.finish run)
      pages start stop ⟨start,0,s⟩ with
  | (.ok,r) =>
    if r.len > 0 then
      match run r.state r.start (r.start+r.len) with
      | (.next,s) => (.ok,s)
      | (.stop,s) => (.ok,s)
      | (status,s) => (status,s)
    else (.ok,r.state)
  | (status,r) => (status,r.state)

section Walk

variable {visit : σ → Slot P → ℕ → Status × σ} {pages : PageList P} {start n : ℕ} {s : σ}

variable {rest : List ℕ} {off : ℕ}

lemma walk_empty (h : pages off = .empty) : walk visit pages (off::rest) s = walk visit pages rest s := by
  rw [walk,h]

lemma walk_next {s' : σ} (hne : pages off ≠ .empty) (h : visit s (pages off) off = (.next,s')) :
    walk visit pages (off::rest) s = walk visit pages rest s' := by
  rw [walk]
  cases hp : pages off with
  | empty => exact absurd hp hne
  | marker | page p =>
    rw [hp] at h
    simp only [h]

lemma walk_stop {s' : σ} (hne : pages off ≠ .empty) (h : visit s (pages off) off = (.stop,s')) :
    walk visit pages (off::rest) s = (.ok,s') := by
  rw [walk]
  cases hp : pages off with
  | empty => exact absurd hp hne
  | marker | page p =>
    rw [hp] at h
    simp only [h]

lemma walk_invariant {I : ℕ → σ → Prop} (hs : I start s)
    (hempty : ∀ x s,start ≤ x → x < start+n → pages x = .empty → I x s → I (x+1) s)
    (hvisit : ∀ x s,start ≤ x → x < start+n → pages x ≠ .empty → I x s → ∃ s',visit s (pages x) x = (.next,s') ∧ I (x+1) s') :
    ∃ s',walk visit pages (range' start n) s = (.ok,s') ∧ I (start+n) s' := by
  induction n generalizing start s with
  | zero => exact ⟨s,rfl,hs⟩
  | succ n ih =>
    have hrest : ∀ t,I (start+1) t → ∃ s',walk visit pages (range' (start+1) n) t = (.ok,s') ∧ I (start+(n+1)) s' := by
      intro t ht
      have hnext := ih ht (fun x s h1 h2 => hempty x s (by omega) (by omega))
        (fun x s h1 h2 => hvisit x s (by omega) (by omega))
      rwa [Nat.add_right_comm start 1 n] at hnext
    rw [range'_succ]
    by_cases hp : pages start = .empty
    · rw [walk_empty hp]
      exact hrest s (hempty start s le_rfl (by omega) hp hs)
    · obtain ⟨t,hv,ht⟩ := hvisit start s le_rfl (by omega) hp hs
      rw [walk_next hp hv]
      exact hrest t ht

end Walk

section Gap

variable {perPage : σ → Slot P → ℕ → Status × σ} {perGap : σ → ℕ → ℕ → Status × σ}
  {pages : PageList P} {stop : ℕ} {s : σ}

lemma walk_pageAndGap_full {x k : ℕ} (hk : x+k = stop) (hfull : ∀ y,x ≤ y → y < stop → pages y ≠ .empty)
    (hnext : ∀ s y,x ≤ y → y < stop → (perPage s (pages y) y).1 = .next ∨ (perPage s (pages y) y).1 = .stop) :
    ∃ t,walk perPage pages (range' x k) s = (.ok,t) ∧
      walk (pageAndGap perPage perGap stop) pages (range' x k) (x,s) = (.ok,(stop,t)) := by
  induction k generalizing x s with
  | zero => exact ⟨s,rfl,by rw [← hk]; rfl⟩
  | succ k ih =>
    have hne := hfull x le_rfl (by omega)
    have hstep := hnext s x le_rfl (by omega)
    rw [range'_succ]
    cases hv : perPage s (pages x) x with
    | mk status t =>
      rw [hv] at hstep
      rcases hstep with rfl | rfl
      · have hgap : pageAndGap perPage perGap stop (x,s) (pages x) x = (.next,x+1,t) := by simp [pageAndGap,hv]
        rw [walk_next hne hv,walk_next hne hgap]
        exact ih (by omega) (fun y h1 h2 => hfull y (by omega) h2) (fun s y h1 h2 => hnext s y (by omega) h2)
      · have hgap : pageAndGap perPage perGap stop (x,s) (pages x) x = (.stop,stop,t) := by simp [pageAndGap,hv]
        rw [walk_stop hne hv,walk_stop hne hgap]
        exact ⟨t,rfl,rfl⟩

lemma walk_pageAndGap_behind {x k expected : ℕ} (hx : expected < x) (hgap : ∀ s a b,perGap s a b = (.stop,s)) :
    ∃ e,walk (pageAndGap perPage perGap stop) pages (range' x k) (expected,s) = (.ok,(e,s)) := by
  induction k generalizing x with
  | zero => exact ⟨expected,rfl⟩
  | succ k ih =>
    rw [range'_succ]
    by_cases hp : pages x = .empty
    · rw [walk_empty hp]
      exact ih (by omega)
    · have hstop : pageAndGap perPage perGap stop (expected,s) (pages x) x = (.stop,(stop,s)) := by
        simp [pageAndGap,hx.ne,hgap]
      exact ⟨stop,walk_stop hp hstop⟩

end Gap

section Runs

variable {compare : Slot P → Bool} {perPage : σ → Slot P → ℕ → Status × σ}
  {run : σ → ℕ → ℕ → Status × σ} {pages : PageList P} {start stop : ℕ}
  {I : ℕ → ℕ → ℕ → σ → Prop}

structure Keeps (compare : Slot P → Bool) (perPage : σ → Slot P → ℕ → Status × σ)
    (run : σ → ℕ → ℕ → Status × σ) (pages : PageList P) (start stop : ℕ)
    (I : ℕ → ℕ → ℕ → σ → Prop) : Prop where
  run : ∀ x rs rl s,0 < rl → I x rs rl s → ∃ s',run s rs (rs+rl) = (.next,s') ∧ I x rs 0 s'
  skip : ∀ x rs s,start ≤ x → x < stop → (pages x = .empty ∨ compare (pages x) = false) →
    I x rs 0 s → I (x+1) rs 0 s
  page : ∀ x rs rl s,start ≤ x → x < stop → pages x ≠ .empty → compare (pages x) →
    I x rs rl s → ∃ s',perPage s (pages x) x = (.next,s') ∧ I (x+1) (if rl = 0 then x else rs) (rl+1) s'

section

variable (h : Keeps compare perPage run pages start stop I)
include h

lemma Keeps.finish {x : ℕ} {r : Run σ} (hi : I x r.start r.len r.state) :
    ∃ s',r.finish run = (.next,⟨r.start,0,s'⟩) ∧ I x r.start 0 s' := by
  by_cases hl : 0 < r.len
  · obtain ⟨s',heq,hi'⟩ := h.run x _ _ _ hl hi
    exact ⟨s',by rw [Run.finish,if_pos hl,heq],hi'⟩
  · rw [Nat.eq_zero_of_not_pos hl] at hi
    exact ⟨r.state,by rw [Run.finish,if_neg hl],hi⟩

lemma Keeps.jump {x k rs : ℕ} {s : σ} (hx : start ≤ x) (hk : x+k ≤ stop)
    (hempty : ∀ y,x ≤ y → y < x+k → pages y = .empty) (hi : I x rs 0 s) : I (x+k) rs 0 s := by
  induction k with
  | zero => exact hi
  | succ k ih =>
    have hprev := ih (by omega) (fun y h1 h2 => hempty y h1 (by omega))
    exact h.skip (x+k) rs s (by omega) (by omega) (.inl (hempty (x+k) (by omega) (by omega))) hprev

lemma Keeps.visit {x : ℕ} {r : Run σ} (hx : start ≤ x) (hlt : x < stop) (hne : pages x ≠ .empty)
    (hi : I x r.start r.len r.state) : ∃ r' : Run σ,r.visit compare perPage run (pages x) x = (.next,r') ∧
      I (x+1) r'.start r'.len r'.state := by
  cases hc : compare (pages x) with
  | true =>
    obtain ⟨s',heq,hi'⟩ := h.page x _ _ _ hx hlt hne hc hi
    refine ⟨⟨if r.len = 0 then x else r.start,r.len+1,s'⟩,?_,hi'⟩
    rw [Run.visit,hc,if_pos rfl,heq]
  | false =>
    obtain ⟨s',heq,hi'⟩ := h.finish hi
    refine ⟨⟨r.start,0,s'⟩,?_,h.skip x _ _ hx hlt (.inr hc) hi'⟩
    rw [Run.visit,hc,if_neg Bool.false_ne_true,heq]

end

def Pending (I : ℕ → ℕ → ℕ → σ → Prop) (pages : PageList P) (start x : ℕ) (t : ℕ × Run σ) :
    Prop :=
  (start ≤ t.1 ∧ t.1 ≤ x) ∧ (∀ y,t.1 ≤ y → y < x → pages y = .empty) ∧ I t.1 t.2.start t.2.len t.2.state

lemma Keeps.pageAndGap (h : Keeps compare perPage run pages start stop I) {x : ℕ} {t : ℕ × Run σ} (hx : start ≤ x)
    (hlt : x < stop) (hne : pages x ≠ .empty) (ht : Pending I pages start x t) :
    ∃ t',pageAndGap (Run.visit compare perPage run) (fun r _ _ => r.finish run) stop t
      (pages x) x = (.next,t') ∧ Pending I pages start (x+1) t' := by
  obtain ⟨⟨hstart,hle⟩,hempty,hi⟩ := ht
  obtain ⟨r,hgap,hr⟩ : ∃ r : Run σ,(if t.1 ≠ x then t.2.finish run else (.next,t.2)) =
      (.next,r) ∧ I x r.start r.len r.state := by
    by_cases hex : t.1 = x
    · exact ⟨t.2,if_neg (not_not.mpr hex),hex ▸ hi⟩
    · obtain ⟨s',heq,hi'⟩ := h.finish hi
      refine ⟨⟨t.2.start,0,s'⟩,by rw [if_pos hex,heq],?_⟩
      have hjump := @Keeps.jump P σ _ _ _ _ _ _ _ h t.1 (x-t.1) _ _ hstart (by omega)
        (fun y h1 h2 => hempty y h1 (by omega)) hi'
      rwa [Nat.add_sub_cancel' hle] at hjump
  obtain ⟨r',heq,hr'⟩ := h.visit hx hlt hne hr
  refine ⟨(x+1,r'),?_,⟨by omega,le_rfl⟩,fun y h1 h2 => absurd h1 (by omega),hr'⟩
  simp only [PageList.pageAndGap,hgap,if_true,heq]
  simp

lemma Keeps.runs (h : Keeps compare perPage run pages start stop I) (hle : start ≤ stop) {s : σ}
    (hs : I start start 0 s) : ∃ rs s',forEveryPageAndContiguousRunInRange compare perPage run pages start stop s =
      (.ok,s') ∧ I stop rs 0 s' := by
  obtain ⟨⟨e,r⟩,hwalk,⟨hstart,he⟩,hempty,hi⟩ := @walk_invariant P (ℕ × Run σ)
    (PageList.pageAndGap (Run.visit compare perPage run) (fun r _ _ => r.finish run) stop) pages
    start (stop-start) (start,⟨start,0,s⟩) (Pending I pages start)
    ⟨⟨le_rfl,le_rfl⟩,fun y h1 h2 => absurd h1 (by omega),hs⟩ (fun x t _ _ hp ht => by
      refine ⟨⟨ht.1.1,ht.1.2.trans (Nat.le_succ x)⟩,fun y h1 h2 => ?_,ht.2.2⟩
      by_cases hyx : y = x
      · rw [hyx,hp]
      · exact ht.2.1 y h1 (by omega))
    fun x t h1 h2 => h.pageAndGap h1 (by omega)
  rw [Nat.add_sub_cancel' hle] at he hempty
  simp only [forEveryPageAndContiguousRunInRange,forEveryPageAndGapInRange,forEveryPageInRange,hwalk]
  by_cases hex : e = stop
  · simp only [hex,ne_eq,not_true_eq_false,if_false]
    rw [hex] at hi
    by_cases hl : 0 < r.len
    · obtain ⟨s',heq,hi'⟩ := h.run _ _ _ _ hl hi
      exact ⟨r.start,s',by rw [if_pos hl,heq],hi'⟩
    · refine ⟨r.start,r.state,by rw [if_neg hl],?_⟩
      rwa [Nat.eq_zero_of_not_pos hl] at hi
  · obtain ⟨s',heq,hi'⟩ := h.finish hi
    refine ⟨r.start,s',by simp [hex,heq],?_⟩
    have hjump := @Keeps.jump P σ _ _ _ _ _ _ _ h e (stop-e) _ _ hstart (by omega)
      (fun y h1 h2 => hempty y h1 (by omega)) hi'
    rwa [Nat.add_sub_cancel' he] at hjump

end Runs

end PageList
end Fuchsia.Zircon
