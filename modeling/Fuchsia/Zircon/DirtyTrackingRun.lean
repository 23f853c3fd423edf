import Fuchsia.Zircon.DirtyTracking

/-! What is written to the pages of a pager-backed VMO is not lost: a page written since its
last writeback began is dirty, and a writeback only makes pages clean that are still as
they were when it began. -/
namespace Fuchsia.Zircon.DirtyTracking

open PageList List Nat

variable {α : Type}

section Pointwise

variable {v : Vmo α} {offset len : ℕ}

def IsDirty : Slot (Page α) → Prop
  | .page p => p.dirtyState = .dirty
  | _ => False

def moved (before after : DirtyState) : Slot (Page α) → Slot (Page α)
  | .page p => if p.dirtyState = before then .page { p with dirtyState := after } else .page p
  | slot => slot

def Passed (f : Slot (Page α) → Slot (Page α)) (pages : PageList (Page α)) (start x : ℕ)
    (pages' : PageList (Page α)) : Prop :=
  ∀ n,pages' n = if start ≤ n ∧ n < x then f (pages n) else pages n

lemma Passed.start (f : Slot (Page α) → Slot (Page α)) (pages : PageList (Page α)) (start : ℕ) :
    Passed f pages start start pages := by
  intro n
  rw [if_neg (by omega)]

variable {f : Slot (Page α) → Slot (Page α)} {start x : ℕ} {pages pages' : PageList (Page α)}

lemma Passed.set (h : Passed f pages start x pages')
    (hx : start ≤ x) : Passed f pages start (x+1) (pages'.set x (f (pages x))) := by
  intro n
  by_cases hn : n = x
  · subst hn
    rw [set_same,if_pos (by omega)]
  · rw [set_of_ne _ _ hn,h n]
    congr 1
    simp only [eq_iff_iff]
    omega

lemma Passed.skip (h : Passed f pages start x pages')
    (hf : f (pages x) = pages x) : Passed f pages start (x+1) pages' := by
  intro n
  rw [h n]
  by_cases hn : n = x
  · subst hn
    rw [if_neg (by omega),hf,ite_self]
  · congr 1
    simp only [eq_iff_iff]
    omega

lemma moveState_spec (before after : DirtyState) (v : Vmo α) (offset len : ℕ) :
    ∃ pages,moveState before after v offset len = (.ok,pages) ∧
      ∀ n,pages n = if Covers offset len n then moved before after (v.pages n) else v.pages n := by
  have hle : offset/pageSize ≤ (offset+len)/pageSize := Nat.div_le_div_right (by omega)
  obtain ⟨pages,hwalk,hp⟩ := @walk_invariant _ _ (moveVisit before after) v.pages (offset/pageSize)
    ((offset+len)/pageSize-offset/pageSize) v.pages
    (Passed (moved before after) v.pages (offset/pageSize)) (Passed.start _ _ _)
    (fun x s _ _ hempty h => h.skip (by rw [hempty]; rfl)) (fun x s hx _ hne h => by
      cases hs : v.pages x with
      | empty => exact absurd hs hne
      | marker => exact ⟨s,rfl,h.skip (by rw [hs]; rfl)⟩
      | page p =>
        by_cases hb : p.dirtyState = before
        · refine ⟨s.set x (.page { p with dirtyState := after }),by simp [moveVisit,hb],?_⟩
          have hset := h.set hx
          rwa [hs,moved,if_pos hb] at hset
        · exact ⟨s,by simp [moveVisit,hb],h.skip (by rw [hs,moved,if_neg hb])⟩)
  rw [Nat.add_sub_cancel' hle] at hp
  exact ⟨pages,hwalk,hp⟩

def dirtied : Slot (Page α) → Slot (Page α)
  | .page p => if p.isDirtyTracked then .page { p with dirtyState := .dirty } else .page p
  | slot => slot

lemma dirtied_of_skip {slot : Slot (Page α)} (h : slot = .empty ∨ notDirty slot = false) : dirtied slot = slot := by
  cases slot with
  | page p =>
    have hskip := h.resolve_left (by simp)
    cases p with
    | mk content state =>
      cases state <;> simp_all [notDirty,dirtied,Page.isDirtyTracked,Page.isDirty]
  | _ => rfl

lemma dirtyVisit_keeps (pages : PageList (Page α)) (start stop : ℕ) :
    Keeps notDirty dirtyVisit (fun pages _ _ => (.next,pages)) pages start stop
      fun x _ _ pages' => Passed dirtied pages start x pages' where
  run x _ _ s _ h := ⟨s,rfl,h⟩
  skip x _ s _ _ hskip h := h.skip (dirtied_of_skip hskip)
  page x _ _ s hx _ _ hc h := by
    have hset := h.set hx
    cases hs : pages x with
    | page p =>
      rw [hs] at hc hset
      simp only [notDirty,Bool.and_eq_true] at hc
      rw [dirtied,if_pos hc.1] at hset
      exact ⟨_,rfl,hset⟩
    | empty | marker => simp [hs,notDirty] at hc

def Changed (f : Slot (Page α) → Slot (Page α)) (v : Vmo α) (offset len : ℕ) (v' : Vmo α) : Prop :=
  v' = v ∨ ∃ pages,v' = { v with pages := pages } ∧
    ∀ n,pages n = if Covers offset len n then f (v.pages n) else v.pages n

lemma dirtyPages_changed (v : Vmo α) (offset len : ℕ) : Changed dirtied v offset len (dirtyPages v offset len).2 := by
  by_cases hr : inRange offset len v.size
  · cases ht : v.source.shouldTrapDirtyTransitions with
    | false => exact .inl (by simp [dirtyPages,hr,ht])
    | true =>
      obtain ⟨rs,pages,heq,hp⟩ := (dirtyVisit_keeps v.pages (offset/pageSize)
        ((offset+len)/pageSize)).runs (Nat.div_le_div_right (by omega)) (Passed.start _ _ _)
      exact .inr ⟨pages,by simp [dirtyPages,hr,ht,heq],hp⟩
  · exact .inl (by simp [dirtyPages,hr])

lemma writebackEnd_changed (v : Vmo α) (offset len : ℕ) :
    Changed (moved .awaitingClean .clean) v offset len (writebackEnd v offset len).2 := by
  by_cases hr : inRange offset len v.size
  · cases hp : v.source.isPreservingPageContent with
    | false => exact .inl (by simp [writebackEnd,hr,hp])
    | true =>
      obtain ⟨pages,heq,hpages⟩ := moveState_spec .awaitingClean .clean v offset len
      exact .inr ⟨pages,by simp [writebackEnd,hr,hp,heq],hpages⟩
  · exact .inl (by simp [writebackEnd,hr])

/-- The page `n` lies in one of the ranges. -/
def Reported (ranges : List (ℕ × ℕ)) (n : ℕ) : Prop :=
  ∃ r ∈ ranges,r.1 ≤ n*pageSize ∧ (n+1)*pageSize ≤ r.1+r.2

lemma reported_append {ranges : List (ℕ × ℕ)} {stop n : ℕ} (h : start ≤ stop) :
    Reported (ranges++[(start*pageSize,(stop-start)*pageSize)]) n ↔ Reported ranges n ∨ start ≤ n ∧ n < stop := by
  have hlast : (start*pageSize ≤ n*pageSize ∧
      (n+1)*pageSize ≤ start*pageSize+(stop-start)*pageSize) ↔ start ≤ n ∧ n < stop := by
    rw [← Nat.add_mul,Nat.add_sub_cancel' h,Nat.mul_le_mul_right_iff (by simp [pageSize]),
      Nat.mul_le_mul_right_iff (by simp [pageSize])]
    rfl
  simp [Reported,or_and_right,exists_or,hlast]

structure Found (pages : PageList (Page α)) (start x rs rl : ℕ) (out : List (ℕ × ℕ)) : Prop where
  run : 0 < rl → rs+rl = x
  found : ∀ n,Reported out n ∨ (rs ≤ n ∧ n < rs+rl) ↔ (start ≤ n ∧ n < x) ∧ notClean (pages n)

lemma found_keeps (pages : PageList (Page α)) (start stop : ℕ) : Keeps notClean (fun out _ _ => (.next,out))
      (fun out start stop => (.next,out++[(start*pageSize,(stop-start)*pageSize)])) pages start stop
      (Found pages start) where
  run x rs rl out hl h := by
    refine ⟨_,rfl,by simp,fun n => ?_⟩
    rw [reported_append (by omega),← h.found n]
    simp only [add_zero]
    constructor
    · rintro (h | h)
      · exact h
      · omega
    · exact .inl
  skip x rs out hx _ hskip h := by
    have hn : notClean (pages x) = false := hskip.elim (fun h => by rw [h]; rfl) id
    refine ⟨by simp,fun n => ?_⟩
    rw [h.found n]
    by_cases hnx : n = x
    · subst hnx
      simp [hn]
    · have hlt : n < x+1 ↔ n < x := by omega
      rw [hlt]
  page x rs rl out hx _ _ hc h := by
    refine ⟨out,rfl,fun _ => ?_,fun n => ?_⟩
    · have hrun := h.run
      split_ifs with hl <;> omega
    · have hrun := h.run
      have hfound := h.found n
      by_cases hnx : n = x
      · subst hnx
        simp only [hc,and_true]
        constructor
        · intro _
          omega
        · intro _
          right
          split_ifs with hl <;> omega
      · have hlt : n < x+1 ↔ n < x := by omega
        rw [hlt,← hfound]
        split_ifs with hl
        · subst hl
          have h1 : ¬(x ≤ n ∧ n < x+(0+1)) := by omega
          have h2 : ¬(rs ≤ n ∧ n < rs+0) := by omega
          rw [or_iff_left h1,or_iff_left h2]
        · have h1 : (rs ≤ n ∧ n < rs+(rl+1)) ↔ (rs ≤ n ∧ n < rs+rl) := by omega
          rw [h1]

lemma enumerateDirtyRanges_spec (hp : v.source.isPreservingPageContent) (hr : inRange offset len v.size) :
    ∃ ranges,enumerateDirtyRanges v offset len = (.ok,ranges) ∧
      ∀ n,Reported ranges n ↔ (offset/pageSize ≤ n ∧ n < (offset+len+(pageSize-1))/pageSize) ∧ notClean (v.pages n) := by
  have hstart : Found v.pages (offset/pageSize) (offset/pageSize) (offset/pageSize) 0 [] := by
    refine ⟨by simp,fun n => ?_⟩
    simp only [Reported,not_mem_nil,false_and,exists_false,false_or]
    omega
  obtain ⟨rs,ranges,heq,hf⟩ := (found_keeps v.pages (offset/pageSize)
    ((offset+len+(pageSize-1))/pageSize)).runs (Nat.div_le_div_right (by omega)) hstart
  refine ⟨ranges,by simp [enumerateDirtyRanges,hp,hr,heq],fun n => ?_⟩
  rw [← hf.found n]
  have hempty : ¬(rs ≤ n ∧ n < rs+0) := by omega
  rw [or_iff_left hempty]

end Pointwise

section Lookup

variable {v : Vmo α}

lemma prepare_walk {pages : PageList (Page α)} {first k : ℕ} {s : ℕ × ℕ}
    (hpages : ∀ x,first ≤ x → x < first+k → ∃ p,pages x = .page p) :
    ∃ s',walk prepareVisit pages (range' first k) s = (.ok,s') ∧
      (s'.2 = 0 → s.2 = 0 ∧ ∀ x,first ≤ x → x < first+k → IsDirty (pages x)) := by
  induction k generalizing first s with
  | zero => exact ⟨s,rfl,fun h => ⟨h,fun x h1 h2 => absurd h2 (by omega)⟩⟩
  | succ k ih =>
    obtain ⟨p,hp⟩ := hpages first le_rfl (by omega)
    have hne : pages first ≠ .empty := by simp [hp]
    have hrest : ∀ x,first+1 ≤ x → x < first+1+k → ∃ p,pages x = .page p := fun x h1 h2 =>
      hpages x (by omega) (by omega)
    rw [range'_succ]
    by_cases hd : p.dirtyState = .dirty
    · by_cases hl : s.2 > 0
      · refine ⟨s,walk_stop hne ?_,fun h => absurd h (by omega)⟩
        simp [hp,prepareVisit,Page.isDirty,hd,hl]
      · obtain ⟨s',hwalk,hs'⟩ := @ih (first+1) (first+1,s.2) hrest
        have hvisit : prepareVisit s (pages first) first = (.next,(first+1,s.2)) := by
          simp [hp,prepareVisit,Page.isDirty,hd,hl]
        refine ⟨s',?_,fun h => ⟨(hs' h).1,fun x h1 h2 => ?_⟩⟩
        · rw [walk_next hne hvisit,hwalk]
        · by_cases hx : x = first
          · rw [hx,hp]
            exact hd
          · exact (hs' h).2 x (by omega) (by omega)
    · obtain ⟨s',hwalk,hs'⟩ := @ih (first+1) (s.1,s.2+1) hrest
      have hvisit : prepareVisit s (pages first) first = (.next,(s.1,s.2+1)) := by
        simp [hp,prepareVisit,Page.isDirty,hd]
      refine ⟨s',?_,fun h => absurd (hs' h).1 (by simp)⟩
      rw [walk_next hne hvisit,hwalk]

lemma prepareForWrite_spec (ht : v.source.shouldTrapDirtyTransitions) {first count : ℕ}
    (hpages : ∀ x,first ≤ x → x < first+count → ∃ p,v.pages x = .page p) :
    ∃ status,prepareForWrite v first count = some status ∧
      (status = .ok → ∀ x,first ≤ x → x < first+count → IsDirty (v.pages x)) := by
  obtain ⟨s',hwalk,hs'⟩ := @prepare_walk α v.pages first count (first,0) hpages
  obtain ⟨t,hpage,hgap⟩ := @walk_pageAndGap_full _ _ prepareVisit (fun s _ _ => (.badState,s)) v.pages
    (first+count) (first,0) first count rfl (fun y h1 h2 => by
      obtain ⟨p,hp⟩ := hpages y h1 h2
      simp [hp])
    (fun s y h1 h2 => by
      obtain ⟨p,hp⟩ := hpages y h1 h2
      rw [hp,prepareVisit]
      split_ifs <;> simp)
  obtain rfl : s' = t := congrArg Prod.snd (hwalk.symm.trans hpage)
  simp only [prepareForWrite,ht,forEveryPageAndGapInRange,forEveryPageInRange,
    Nat.add_sub_cancel_left,hgap,ne_eq,not_true_eq_false,Bool.not_true,Bool.false_eq_true,if_false]
  by_cases hz : s'.2 = 0
  · exact ⟨.ok,by rw [if_pos hz],fun _ => (hs' hz).2⟩
  · refine ⟨requestPage v.source,by rw [if_neg hz],fun h => ?_⟩
    rw [requestPage] at h
    split_ifs at h

lemma collect_walk {pages : PageList (Page α)} {stop x k : ℕ} {out : List ℕ} (hk : x+k = stop) :
    ∃ m e,m ≤ k ∧ (∀ y,x ≤ y → y < x+m → ∃ p,pages y = .page p) ∧
      walk (pageAndGap collectVisit (fun out _ _ => (.stop,out)) stop) pages (range' x k)
        (x,out) = (.ok,(e,out++range' x m)) := by
  induction k generalizing x out with
  | zero => exact ⟨0,x,le_rfl,fun y h1 h2 => absurd h2 (by omega),by simp [walk]⟩
  | succ k ih =>
    rw [range'_succ]
    cases hp : pages x with
    | empty =>
      obtain ⟨e,hwalk⟩ := @walk_pageAndGap_behind _ _ collectVisit
        (fun (out : List ℕ) _ _ => (.stop,out)) pages stop out (x+1) k x (by omega) fun _ _ _ => rfl
      exact ⟨0,e,by omega,fun y h1 h2 => absurd h2 (by omega),by
        rw [walk_empty hp,hwalk,range'_zero,append_nil]⟩
    | marker =>
      have hstop : pageAndGap collectVisit (fun out _ _ => (.stop,out)) stop (x,out) (pages x) x =
          (.stop,(stop,out)) := by simp [pageAndGap,hp,collectVisit]
      exact ⟨0,stop,by omega,fun y h1 h2 => absurd h2 (by omega),by
        rw [walk_stop (by simp [hp]) hstop,range'_zero,append_nil]⟩
    | page p =>
      have hnext : pageAndGap collectVisit (fun out _ _ => (.stop,out)) stop (x,out) (pages x) x =
          (.next,(x+1,out++[x])) := by simp [pageAndGap,hp,collectVisit]
      obtain ⟨m,e,hm,hall,hwalk⟩ := @ih (x+1) (out++[x]) (by omega)
      refine ⟨m+1,e,by omega,fun y h1 h2 => ?_,?_⟩
      · by_cases hy : y = x
        · exact ⟨p,hy ▸ hp⟩
        · exact hall y (by omega) (by omega)
      · rw [walk_next (by simp [hp]) hnext,hwalk,range'_succ,append_assoc]
        rfl

lemma morePages_spec (pages : PageList (Page α)) (n maxOutPages : ℕ) :
    ∃ m,(∀ y,n+1 ≤ y → y < n+1+m → ∃ p,pages y = .page p) ∧ morePages pages n maxOutPages = range' (n+1) m := by
  rw [morePages]
  split_ifs with h
  · obtain ⟨m,e,-,hall,hwalk⟩ := @collect_walk α pages (n+1+(maxOutPages-1)) (n+1) (maxOutPages-1) [] rfl
    refine ⟨m,hall,?_⟩
    simp only [collectPages,forEveryPageAndGapInRange,forEveryPageInRange,Nat.add_sub_cancel_left,hwalk,nil_append]
    split_ifs <;> rfl
  · exact ⟨0,fun y h1 h2 => absurd h2 (by omega),rfl⟩

/-- What a lookup does to the VMO: nothing, or a dirty page of zeroes in place of a marker.
A lookup that means to write returns dirty pages only. -/
structure Looked (v : Vmo α) (write : Bool) (markDirty : DirtyTrackingAction)
    (r : Status × LookupInfo × Vmo α) : Prop where
  pages : r.2.2 = v ∨ ∃ n p,n*pageSize < v.size ∧ v.pages n = .marker ∧ p.dirtyState = .dirty ∧
    r.2.2 = addPage v n p
  dirty : write → markDirty = .dirtyAllPagesOnWrite → ∀ n,.page n ∈ r.2.1.frames → IsDirty (r.2.2.pages n)

lemma addPage_pages (v : Vmo α) (n : ℕ) (p : Page α) : (addPage v n p).pages = v.pages.set n (.page p) := rfl

section

variable (hp : v.source.isPreservingPageContent)
include hp

lemma lookupAbsent_spec [Zero α] {n : ℕ} (hn : n*pageSize < v.size) {marker : Bool} (hm : marker → v.pages n = .marker)
    (write fault : Bool) (markDirty : DirtyTrackingAction) (maxOutPages : ℕ) (memory : Bool) :
    Looked v write markDirty (lookupAbsent v n marker write fault maxOutPages memory) := by
  rw [lookupAbsent]
  split_ifs with hf hz hw hmem
  · exact ⟨.inl rfl,fun _ _ n hn => by simp at hn⟩
  · refine ⟨.inl rfl,fun hwrite => ?_⟩
    simp [hwrite] at hw
  · exact ⟨.inl rfl,fun _ _ n hn => by simp at hn⟩
  · have hmarker : marker := by simpa [hp] using hz
    refine ⟨.inr ⟨n,_,hn,hm hmarker,rfl,rfl⟩,fun _ _ x hx => ?_⟩
    simp only [mem_singleton,Frame.page.injEq] at hx
    rw [addPage_pages,hx,set_same]
    rfl
  · exact ⟨.inl rfl,fun _ _ n hn => by simp at hn⟩

lemma lookupPresent_spec (ht : v.source.shouldTrapDirtyTransitions) {n : ℕ} {p : Page α} (hpage : v.pages n = .page p)
    (write : Bool) (markDirty : DirtyTrackingAction) (maxOutPages : ℕ) :
    ∃ r,lookupPresent v n write markDirty maxOutPages = some r ∧ Looked v write markDirty r := by
  obtain ⟨m,hall,hmore⟩ := morePages_spec v.pages n maxOutPages
  have hpages : ∀ x,n ≤ x → x < n+(m+1) → ∃ p,v.pages x = .page p := by
    intro x h1 h2
    by_cases hx : x = n
    · exact ⟨p,hx ▸ hpage⟩
    · exact hall x (by omega) (by omega)
  obtain ⟨status,hprepare,hdirty⟩ := prepareForWrite_spec ht hpages
  have hlength : (n::range' (n+1) m).length = m+1 := by simp
  simp only [lookupPresent,hmore,isDirtyTracked,hp,Bool.and_true,hlength,hprepare]
  by_cases hw : (write && decide (markDirty = .dirtyAllPagesOnWrite)) = true
  · rw [if_pos hw]
    cases status with
    | ok =>
      refine ⟨_,rfl,.inl rfl,fun _ _ x hx => hdirty rfl x ?_ ?_⟩
      all_goals
        simp only [map_cons,mem_cons,Frame.page.injEq,mem_map,mem_range'_1] at hx
        rcases hx with rfl | ⟨y,hy,rfl⟩ <;> omega
    | _ => exact ⟨_,rfl,.inl rfl,fun _ _ x hx => by simp at hx⟩
  · rw [if_neg hw]
    refine ⟨_,rfl,.inl rfl,fun hwrite hmark => ?_⟩
    simp [hwrite,hmark] at hw

lemma lookupPages_spec [Zero α] (ht : v.source.shouldTrapDirtyTransitions) (offset : ℕ) (write fault : Bool)
    (markDirty : DirtyTrackingAction) (maxOutPages : ℕ) (memory : Bool) :
    ∃ r,lookupPages v offset write fault markDirty maxOutPages memory = some r ∧ Looked v write markDirty r := by
  by_cases ho : offset ≥ v.size
  · exact ⟨_,by rw [lookupPages,if_pos ho],.inl rfl,fun _ _ n hn => by simp at hn⟩
  · have hn : offset/pageSize*pageSize < v.size :=
      (div_mul_le_self offset pageSize).trans_lt (not_le.mp ho)
    simp only [lookupPages,if_neg ho]
    cases hs : v.pages (offset/pageSize) with
    | page p => exact lookupPresent_spec hp ht hs write markDirty _
    | marker =>
      exact ⟨_,rfl,lookupAbsent_spec hp hn (fun _ => hs) write fault markDirty _ memory⟩
    | empty =>
      exact ⟨_,rfl,lookupAbsent_spec hp hn (by simp) write fault markDirty _ memory⟩

end

end Lookup

section Invariant

variable {s : System α}

structure Inv (s : System α) : Prop where
  traps : s.vmo.source.shouldTrapDirtyTransitions
  preserves : s.vmo.source.isPreservingPageContent
  size : PageAligned s.vmo.size
  inside : ∀ n,s.vmo.pages n ≠ .empty → (n+1)*pageSize ≤ s.vmo.size
  writable : ∀ n,s.vmo.writable n → IsDirty (s.vmo.pages n)
  written : ∀ n,s.written n → IsDirty (s.vmo.pages n)
  begun : ∀ w ∈ s.begun,∀ n p,Covers w.offset w.len n → s.vmo.pages n = .page p →
    p.dirtyState = .awaitingClean → ∃ q,w.pages n = .page q ∧ q.content = p.content

/-- A change of the VMO after which dirty pages are dirty, and pages that wait to become
clean are as before. -/
structure Quiet (v v' : Vmo α) : Prop where
  source : v'.source = v.source
  size : v'.size = v.size
  inside : ∀ n,v'.pages n ≠ .empty → v.pages n ≠ .empty ∨ (n+1)*pageSize ≤ v.size
  dirty : ∀ n,IsDirty (v.pages n) → IsDirty (v'.pages n)
  writable : ∀ n,v'.writable n → v.writable n ∨ IsDirty (v'.pages n)
  awaiting : ∀ n p,v'.pages n = .page p → p.dirtyState = .awaitingClean → v.pages n = .page p

variable (v : Vmo α)

lemma Quiet.refl : Quiet v v :=
  ⟨rfl,rfl,fun _ => .inl,fun _ h => h,fun _ => .inl,fun _ _ h _ => h⟩

lemma Quiet.trans {v1 v2 v3 : Vmo α} (h : Quiet v1 v2) (h' : Quiet v2 v3) : Quiet v1 v3 where
  source := h'.source.trans h.source
  size := h'.size.trans h.size
  inside n hn := by
    rcases h'.inside n hn with hn | hn
    · exact h.inside n hn
    · exact .inr (h.size ▸ hn)
  dirty n hn := h'.dirty n (h.dirty n hn)
  writable n hn := by
    rcases h'.writable n hn with hn | hn
    · exact (h.writable n hn).imp_right (h'.dirty n)
    · exact .inr hn
  awaiting n p hn hp := h.awaiting n p (h'.awaiting n p hn hp) hp

lemma Quiet.slot {v v' : Vmo α} (n : ℕ) (hsource : v'.source = v.source) (hsize : v'.size = v.size)
    (hwritable : ∀ x,v'.writable x → v.writable x) (hother : ∀ x,x ≠ n → v'.pages x = v.pages x)
    (hinside : v.pages n ≠ .empty ∨ (n+1)*pageSize ≤ v.size ∨ v'.pages n = .empty) (hdirty : ¬IsDirty (v.pages n))
    (hawaiting : ∀ p,v'.pages n = .page p → p.dirtyState ≠ .awaitingClean) : Quiet v v' := by
  refine ⟨hsource,hsize,fun x hx => ?_,fun x hx => ?_,fun x hx => .inl (hwritable x hx),fun x p hx hp => ?_⟩
  · by_cases hn : x = n
    · subst hn
      rcases hinside with h | h | h
      · exact .inl h
      · exact .inr h
      · exact absurd h hx
    · exact .inl (hother x hn ▸ hx)
  · by_cases hn : x = n
    · exact absurd (hn ▸ hx) hdirty
    · rwa [hother x hn]
  · by_cases hn : x = n
    · subst hn
      exact absurd hp (hawaiting p hx)
    · rwa [← hother x hn]

lemma Inv.quiet (h : Inv s) {v : Vmo α} {begun : List (Writeback α)} (hq : Quiet s.vmo v)
    (hbegun : ∀ w ∈ begun,w ∈ s.begun) : Inv ⟨v,s.written,begun⟩ where
  traps := hq.source ▸ h.traps
  preserves := hq.source ▸ h.preserves
  size := hq.size ▸ h.size
  inside n hn := by
    change (n+1)*pageSize ≤ v.size
    rw [hq.size]
    exact (hq.inside n hn).elim (h.inside n) id
  writable n hn := (hq.writable n hn).elim (fun hn => hq.dirty n (h.writable n hn)) id
  written n hn := hq.dirty n (h.written n hn)
  begun w hw n p hc hp ha := h.begun w (hbegun w hw) n p hc (hq.awaiting n p hp ha) ha

lemma supplyPage_quiet {n : ℕ} (content : Option α) (hn : (n+1)*pageSize ≤ v.size) :
    Quiet v (supplyPage v n content) := by
  have hset : ¬IsDirty (v.pages n) → Quiet v (rangeChangeUpdate
      { v with pages := v.pages.set n (supplied content) } (n*pageSize) pageSize) := by
    intro hd
    refine Quiet.slot n rfl rfl (fun x hx => (Bool.and_eq_true_iff.mp hx).1)
      (fun x hx => set_of_ne _ _ hx) (.inr (.inl hn)) hd fun p hp => ?_
    change v.pages.set n _ n = _ at hp
    rw [set_same] at hp
    cases content with
    | none => cases hp
    | some c =>
      cases hp
      simp
  cases hs : v.pages n with
  | page p =>
    simp only [supplyPage,hs]
    exact .refl v
  | _ =>
    simp only [supplyPage,hs]
    exact hset (by rw [hs]; exact id)

lemma supplyLoop_quiet (n : ℕ) (contents : List (Option α))
    (hin : (n+contents.length)*pageSize ≤ v.size) : Quiet v (supplyLoop v n contents) := by
  induction contents generalizing v n with
  | nil => exact .refl v
  | cons content rest ih =>
    have hrest : (n+1+rest.length)*pageSize ≤ v.size := by
      rwa [length_cons,add_comm rest.length 1,← add_assoc] at hin
    have hn : (n+1)*pageSize ≤ v.size := (mul_le_mul_right _ (le_add_right (n+1) rest.length)).trans hrest
    have hpage := supplyPage_quiet v content hn
    exact hpage.trans (ih _ (n+1) (hpage.size ▸ hrest))

lemma supplyPages_quiet {offset : ℕ} (ho : PageAligned offset)
    (contents : List (Option α)) : Quiet v (supplyPages v offset contents).2 := by
  by_cases hr : inRange offset (contents.length*pageSize) v.size
  · simp only [supplyPages,hr,not_true_eq_false,if_false]
    refine supplyLoop_quiet v _ contents ?_
    rw [Nat.add_mul,Nat.div_mul_cancel (Nat.dvd_of_mod_eq_zero ho)]
    exact not_lt.mp hr.2
  · simp only [supplyPages,hr,not_false_iff,if_true]
    exact .refl v

lemma removePageForEviction_quiet (n : ℕ) : Quiet v (removePageForEviction v n) := by
  rw [removePageForEviction]
  cases hs : v.pages n with
  | empty | marker => exact .refl v
  | page p =>
    by_cases hc : p.dirtyState = .clean
    · simp only [Page.isClean,hc,decide_true,if_true]
      refine Quiet.slot n rfl rfl (fun x hx => (Bool.and_eq_true_iff.mp hx).1)
        (fun x hx => set_of_ne _ _ hx) (.inr (.inr (set_same _ _ _))) ?_ fun q hq => ?_
      · rw [hs]
        simp [IsDirty,hc]
      · change v.pages.set n _ n = _ at hq
        rw [set_same] at hq
        cases hq
    · simp only [Page.isClean,hc,decide_false]
      exact .refl v

variable {offset len : ℕ}

lemma Changed.quiet {v v' : Vmo α} {f : Slot (Page α) → Slot (Page α)} (h : Changed f v offset len v')
    (hempty : f .empty = .empty) (hdirty : ∀ slot,IsDirty slot → IsDirty (f slot))
    (hawaiting : ∀ slot p,f slot = .page p → p.dirtyState = .awaitingClean → slot = .page p) : Quiet v v' := by
  obtain rfl | ⟨pages,rfl,hpages⟩ := h
  · exact .refl v'
  · refine ⟨rfl,rfl,fun n hn => .inl fun he => hn ?_,fun n hn => ?_,fun n => .inl,fun n p hn ha => ?_⟩
    · change pages n = _
      rw [hpages,he,hempty]
      exact ite_self _
    · change IsDirty (pages n)
      rw [hpages]
      split_ifs
      · exact hdirty _ hn
      · exact hn
    · change pages n = _ at hn
      rw [hpages] at hn
      split_ifs at hn
      · exact hawaiting _ p hn ha
      · exact hn

lemma dirtyPages_quiet (offset len : ℕ) : Quiet v (dirtyPages v offset len).2 := by
  refine (dirtyPages_changed v offset len).quiet rfl (fun slot h => ?_) fun slot p h ha => ?_
  · cases slot with
    | page p =>
      rw [dirtied]
      split_ifs
      · rfl
      · exact h
    | _ => exact h
  · cases slot with
    | page q =>
      rw [dirtied] at h
      split_ifs at h
      · cases h
        cases ha
      · exact h
    | _ => exact h

variable {slot : Slot (Page α)}

lemma moved_page {before after : DirtyState} {p : Page α} (h : moved before after slot = .page p) :
    ∃ q,slot = .page q ∧ q.content = p.content ∧ (q = p ∨ q.dirtyState = before ∧ p.dirtyState = after) := by
  cases slot with
  | empty | marker => cases h
  | page q =>
    rw [moved] at h
    split_ifs at h with hb
    · cases h
      exact ⟨q,rfl,rfl,.inr ⟨hb,rfl⟩⟩
    · cases h
      exact ⟨p,rfl,rfl,.inl rfl⟩

lemma writebackEnd_quiet (offset len : ℕ) : Quiet v (writebackEnd v offset len).2 := by
  refine (writebackEnd_changed v offset len).quiet rfl (fun slot h => ?_) fun slot p h ha => ?_
  · cases slot with
    | page p => rwa [moved,if_neg (by simp [show p.dirtyState = .dirty from h])]
    | _ => exact h
  · obtain ⟨q,rfl,-,rfl | ⟨-,hclean⟩⟩ := moved_page h
    · rfl
    · simp [hclean] at ha

lemma Looked.quiet {v : Vmo α} {write : Bool} {markDirty : DirtyTrackingAction} {r : Status × LookupInfo × Vmo α}
    (h : Looked v write markDirty r) : Quiet v (grant r.2.2 write markDirty r.2.1.frames) := by
  have hpages : Quiet v r.2.2 := by
    rcases h.pages with heq | ⟨n,p,-,hm,hd,heq⟩
    · rw [heq]
      exact .refl v
    · rw [heq]
      refine Quiet.slot n rfl rfl (fun x hx => (Bool.and_eq_true_iff.mp hx).1)
        (fun x hx => set_of_ne _ _ hx) (.inl (by simp [hm])) (by rw [hm]; exact id) fun q hq => ?_
      rw [addPage_pages,set_same] at hq
      cases hq
      simp [hd]
  refine hpages.trans ?_
  rw [grant]
  split_ifs with hw
  · simp only [Bool.and_eq_true,decide_eq_true_eq] at hw
    refine ⟨rfl,rfl,fun _ => .inl,fun _ hn => hn,fun n hn => ?_,fun _ _ hn _ => hn⟩
    simp only [Bool.or_eq_true,decide_eq_true_eq] at hn
    exact hn.imp_right (h.dirty hw.1 hw.2 n)
  · exact .refl _

variable {s' : System α}

lemma store_inv (h : Inv s) {n : ℕ} {content : α} (hstore : store s n content = some s') : Inv s' := by
  rw [store] at hstore
  cases hs : s.vmo.pages n with
  | empty | marker => simp [hs] at hstore
  | page p =>
    simp only [hs] at hstore
    split_ifs at hstore with hw
    cases hstore
    have hd : p.dirtyState = .dirty := by
      have hdirty := h.writable n hw
      rwa [hs] at hdirty
    have hdirty : ∀ x,IsDirty (s.vmo.pages x) → IsDirty (s.vmo.pages.set n (.page { p with content := content }) x) := by
      intro x hx
      by_cases hxn : x = n
      · rw [hxn,set_same]
        exact hd
      · rwa [set_of_ne _ _ hxn]
    refine ⟨h.traps,h.preserves,h.size,fun x hx => h.inside x ?_,fun x hx => hdirty x (h.writable x hx),
      fun x hx => ?_,fun w hmem x q hc hq ha => ?_⟩
    · by_cases hxn : x = n
      · simp [hxn,hs]
      · change s.vmo.pages.set n _ x ≠ _ at hx
        rwa [set_of_ne _ _ hxn] at hx
    · simp only [Bool.or_eq_true,decide_eq_true_eq] at hx
      rcases hx with hx | rfl
      · exact hdirty x (h.written x hx)
      · exact hdirty x (h.writable x hw)
    · change s.vmo.pages.set n _ x = _ at hq
      by_cases hxn : x = n
      · rw [hxn,set_same] at hq
        cases hq
        simp [hd] at ha
      · rw [set_of_ne _ _ hxn] at hq
        exact h.begun w hmem x q hc hq ha

lemma not_covers {o1 l1 o2 l2 n : ℕ} (h : o1+l1 ≤ o2 ∨ o2+l2 ≤ o1) (h1 : Covers o1 l1 n) : ¬Covers o2 l2 n := by
  intro h2
  have hdiv : (o1+l1)/pageSize ≤ o2/pageSize ∨ (o2+l2)/pageSize ≤ o1/pageSize :=
    h.imp (fun h => Nat.div_le_div_right h) fun h => Nat.div_le_div_right h
  have h1' := h1.1
  have h1'' := h1.2
  have h2' := h2.1
  have h2'' := h2.2
  omega

lemma begin_inv (h : Inv s) (ha : ∀ w ∈ s.begun,w.offset+w.len ≤ offset ∨ offset+len ≤ w.offset) :
    Inv (begin s offset len) := by
  by_cases hr : inRange offset len s.vmo.size
  · obtain ⟨pages,heq,hpages⟩ := moveState_spec .dirty .awaitingClean s.vmo offset len
    have hkept : ∀ n,¬Covers offset len n → pages n = s.vmo.pages n := by
      intro n hn
      rw [hpages,if_neg hn]
    -- what is left writable or written lies outside the range
    have hout : ∀ {b : ℕ → Bool} {n},(∀ n,b n → IsDirty (s.vmo.pages n)) →
        (b n && !decide (Covers offset len n)) = true → IsDirty (pages n) := by
      intro b n hb hn
      obtain ⟨hn,hc⟩ : b n ∧ ¬Covers offset len n := by simpa using hn
      rw [hkept n hc]
      exact hb n hn
    simp only [begin,writebackBegin,hr,h.preserves,heq,not_true_eq_false,if_false,Bool.not_true,Bool.false_eq_true]
    refine ⟨h.traps,h.preserves,h.size,fun n hn => h.inside n fun he => hn ?_,
      fun n => hout h.writable,fun n => hout h.written,fun w hw n p hc hp hawait => ?_⟩
    · change pages n = _
      rw [hpages,he]
      exact ite_self _
    · change pages n = _ at hp
      rcases mem_cons.mp hw with rfl | hw
      · rw [hpages,if_pos hc] at hp
        obtain ⟨q,hq,hcontent,-⟩ := moved_page hp
        exact ⟨q,hq,hcontent⟩
      · rw [hkept n (not_covers (ha w hw) hc)] at hp
        exact h.begun w hw n p hc hp hawait
  · simp only [begin,writebackBegin,hr,not_false_iff,if_true]
    exact h

lemma step_inv [Zero α] (h : Inv s) {a : Action α} (ha : Allowed s a) (hstep : step s a = some s') : Inv s' := by
  cases a with
  | supply offset contents =>
    cases hstep
    exact h.quiet (supplyPages_quiet s.vmo ha contents) fun w hw => hw
  | lookup offset write fault markDirty maxOutPages memory =>
    obtain ⟨r,heq,hlooked⟩ := lookupPages_spec h.preserves h.traps offset write fault markDirty maxOutPages memory
    simp only [step,heq,Option.map_some,Option.some.injEq] at hstep
    subst hstep
    exact h.quiet hlooked.quiet fun w hw => hw
  | store n content => exact store_inv h hstep
  | dirty offset len =>
    cases hstep
    exact h.quiet (dirtyPages_quiet s.vmo offset len) fun w hw => hw
  | writebackBegin offset len =>
    cases hstep
    exact begin_inv h ha.2.2
  | writebackEnd offset len =>
    cases hstep
    exact h.quiet (writebackEnd_quiet s.vmo offset len) fun w hw => mem_of_mem_eraseP hw
  | evict n =>
    cases hstep
    exact h.quiet (removePageForEviction_quiet s.vmo n) fun w hw => hw

end Invariant

section Run

variable {s : System α}

/-- A VMO whose source traps dirty transitions. -/
def Start (s : System α) : Prop :=
  ∃ size detached,PageAligned size ∧ s = initial size ⟨true,true,detached⟩

def Reached [Zero α] : System α → Prop := Transition.Reachable Start Allowed step

lemma start_inv (h : Start s) : Inv s := by
  obtain ⟨size,detached,hsize,rfl⟩ := h
  refine ⟨rfl,rfl,hsize,fun n hn => absurd rfl hn,?_,?_,?_⟩ <;> simp [initial]

lemma Reached.inv [Zero α] (h : Reached s) : Inv s :=
  Transition.Reachable.invariant h (fun _ => start_inv) fun _ _ _ hi => step_inv hi

/-- Nothing written is lost. -/
structure Preserved [Zero α] (s : System α) : Prop where
  written : ∀ n,s.written n → ∃ p,s.vmo.pages n = .page p ∧ p.dirtyState = .dirty
  writebackEnd : ∀ offset len s',Allowed s (.writebackEnd offset len) →
    step s (.writebackEnd offset len) = some s' → ∀ n p,s'.vmo.pages n = .page p →
    p.dirtyState = .clean → s.vmo.pages n = .page p ∨ Covers offset len n ∧
      ∀ w ∈ s.begun,w.offset = offset → w.len = len → ∃ q,w.pages n = .page q ∧ q.content = p.content
  enumerated : ∀ offset len,inRange offset len s.vmo.size →
    ∃ ranges,enumerateDirtyRanges s.vmo offset len = (.ok,ranges) ∧ ∀ n,Reported ranges n ↔
        (offset/pageSize ≤ n ∧ n < (offset+len+(pageSize-1))/pageSize) ∧
        ∃ p,s.vmo.pages n = .page p ∧ (p.dirtyState = .dirty ∨ p.dirtyState = .awaitingClean)
  all : ∃ ranges,enumerateDirtyRanges s.vmo 0 s.vmo.size = (.ok,ranges) ∧ ∀ n,Reported ranges n ↔
      ∃ p,s.vmo.pages n = .page p ∧ (p.dirtyState = .dirty ∨ p.dirtyState = .awaitingClean)
  noPanic : ∀ offset write fault markDirty maxOutPages memory,
    (step s (.lookup offset write fault markDirty maxOutPages memory)).isSome

variable {slot : Slot (Page α)}

lemma isDirty_iff : IsDirty slot ↔ ∃ p,slot = .page p ∧ p.dirtyState = .dirty := by
  cases slot <;> simp [IsDirty]

lemma notClean_iff : notClean slot ↔ ∃ p,slot = .page p ∧ (p.dirtyState = .dirty ∨ p.dirtyState = .awaitingClean) := by
  cases slot with
  | page p =>
    cases p with
    | mk content state => cases state <;> simp [notClean,Page.isDirtyTracked,Page.isClean]
  | _ => simp [notClean]

theorem reached_preserved [Zero α] (h : Reached s) : Preserved s := by
  have hinv := h.inv
  refine ⟨fun n hn => isDirty_iff.mp (hinv.written n hn),fun offset len s' _ hstep n p hp _ => ?_,
    fun offset len hr => ?_,?_,fun offset write fault markDirty maxOutPages memory => ?_⟩
  · cases hstep
    rcases writebackEnd_changed s.vmo offset len with heq | ⟨pages,heq,hpages⟩
    · exact .inl (heq ▸ hp)
    · rw [heq] at hp
      change pages n = _ at hp
      rw [hpages] at hp
      split_ifs at hp with hc
      · obtain ⟨q,hq,hcontent,rfl | ⟨hawait,-⟩⟩ := moved_page hp
        · exact .inl hq
        · refine .inr ⟨hc,?_⟩
          rintro w hw rfl rfl
          obtain ⟨q',hq',hcontent'⟩ := hinv.begun w hw n q hc hq hawait
          exact ⟨q',hq',hcontent'.trans hcontent⟩
      · exact .inl hp
  · simp only [← notClean_iff]
    exact enumerateDirtyRanges_spec hinv.preserves hr
  · obtain ⟨ranges,heq,hrep⟩ := @enumerateDirtyRanges_spec α s.vmo 0 s.vmo.size hinv.preserves
      ⟨by omega,by omega⟩
    refine ⟨ranges,heq,fun n => ?_⟩
    rw [hrep,notClean_iff,and_iff_right_iff_imp]
    rintro ⟨p,hp,-⟩
    have hin := hinv.inside n (by simp [hp])
    refine ⟨by simp,(le_div_iff_mul_le (by simp [pageSize])).mpr ?_⟩
    change (n+1)*pageSize ≤ _
    omega
  · obtain ⟨r,heq,-⟩ := lookupPages_spec hinv.preserves hinv.traps offset write fault markDirty
      maxOutPages memory
    simp [step,heq]

instance (s : System α) : ∀ a,Decidable (Allowed s a)
  | .supply offset _ => inferInstanceAs (Decidable (PageAligned offset))
  | .dirty _ _ => inferInstanceAs (Decidable (_ ∧ _))
  | .writebackBegin _ _ => inferInstanceAs (Decidable (_ ∧ _ ∧ _))
  | .writebackEnd _ _ => inferInstanceAs (Decidable (∃ w ∈ s.begun,_))
  | .lookup _ _ _ _ _ _ => .isTrue trivial
  | .store _ _ => .isTrue trivial
  | .evict _ => .isTrue trivial

def rewritten : Option (System ℕ) := Transition.run Allowed step (initial (2*pageSize) ⟨true,true,false⟩)
    [.supply 0 [some 5],.lookup 0 true true .dirtyAllPagesOnWrite 1 true,.dirty 0 pageSize,
      .lookup 0 true true .dirtyAllPagesOnWrite 1 true,.store 0 7,.writebackBegin 0 pageSize,
      .dirty 0 pageSize,.lookup 0 true true .dirtyAllPagesOnWrite 1 true,.store 0 9,
      .writebackEnd 0 pageSize]

theorem reached_preserved_rewritten :
    ∃ h : rewritten.isSome,(rewritten.get h).written 0 = true ∧
      (rewritten.get h).vmo.pages 0 = .page ⟨9,.dirty⟩ ∧ Preserved (rewritten.get h) :=
  ⟨by decide +kernel,by decide +kernel,by decide +kernel,
    reached_preserved (Transition.Reachable.run (.start ⟨2*pageSize,false,by decide,rfl⟩)
      (Option.some_get _).symm)⟩

end Run

end Fuchsia.Zircon.DirtyTracking
