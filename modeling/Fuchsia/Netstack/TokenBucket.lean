import Fuchsia.Lib.Fallible

/-! The rate limiter of `data_structures/token_bucket.rs`. Instants and durations are in
nanoseconds. -/
namespace Fuchsia.Netstack

open Fallible List

structure TokenBucket where
  lastRefilled : Option ℕ
  tokenFractions : ℕ
  tokenFractionsPerSecond : ℕ

namespace TokenBucket

/-- An overflow, a conversion that fails or an instant that is later than the next. -/
inductive Fault
  | panic

def tokenMultiplier : ℕ := 256

def second : ℕ := 10^9

def u64 (n : ℕ) : Except Fault ℕ := do
  require .panic (n < 2^64)
  return n

def new (tokensPerSecond : ℕ) : Except Fault TokenBucket := do
  let tokenFractionsPerSecond ← u64 (tokensPerSecond*tokenMultiplier)
  return ⟨none,0,tokenFractionsPerSecond⟩

def durSinceLastRefilled (b : TokenBucket) (now : ℕ) : Except Fault ℕ :=
  b.lastRefilled.elim (.ok second) fun lastRefilled => do
    require .panic (lastRefilled ≤ now)
    return min (now-lastRefilled) second

def tryTake (b : TokenBucket) (now : ℕ) : Except Fault (TokenBucket × Bool) :=
  if tokenMultiplier ≤ b.tokenFractions then
    .ok ({ b with tokenFractions := b.tokenFractions-tokenMultiplier },true)
  else do
    let dur ← b.durSinceLastRefilled now
    -- a product of two `u64` is an `u128`
    let added ← u64 (b.tokenFractionsPerSecond*dur/second)
    let total ← u64 (b.tokenFractions+added)
    if tokenMultiplier ≤ total then
      return ({ b with lastRefilled := some now,tokenFractions := total-tokenMultiplier },true)
    else return (b,false)

def takeAll : TokenBucket → List ℕ → Except Fault (TokenBucket × ℕ)
  | b,[] => .ok (b,0)
  | b,now::rest => do
    let r ← b.tryTake now
    let s ← takeAll r.1 rest
    return (s.1,r.2.toNat+s.2)

def elapsed (b : TokenBucket) (now : ℕ) : ℕ :=
  b.lastRefilled.elim second fun last => min (now-last) second

structure Sane (rate : ℕ) (calls : List ℕ) (b : TokenBucket) : Prop where
  perSecond : b.tokenFractionsPerSecond = rate*tokenMultiplier
  fractions : b.tokenFractions ≤ rate*tokenMultiplier
  last : ∀ last,b.lastRefilled = some last → ∀ c ∈ calls,last ≤ c

variable {b : TokenBucket} {rate now last n : ℕ} {calls later : List ℕ}

lemma u64_eq (h : n < 2^64) : u64 n = .ok n := by rw [u64,require_of h,ok_bind,pure_eq]

lemma fits (hrate : rate < 2^56) : rate*tokenMultiplier+tokenMultiplier ≤ 2^64 := by
  rw [tokenMultiplier]
  omega

lemma new_eq (hrate : rate < 2^56) : new rate = .ok ⟨none,0,rate*tokenMultiplier⟩ := by
  rw [new,u64_eq ((Nat.lt_add_of_pos_right (by decide)).trans_le (fits hrate)),ok_bind,pure_eq]

lemma elapsed_le (b : TokenBucket) (now : ℕ) : b.elapsed now ≤ second := by
  rw [elapsed]
  cases b.lastRefilled with
  | none => rw [Option.elim_none]
  | some last => exact min_le_right _ _

lemma elapsed_of (hlast : b.lastRefilled = some last) : b.elapsed now = min (now-last) second := by
  rw [elapsed,hlast,Option.elim_some]

lemma Sane.dur_eq (h : Sane rate (now::later) b) : b.durSinceLastRefilled now = .ok (b.elapsed now) := by
  rw [durSinceLastRefilled,elapsed]
  cases hlast : b.lastRefilled with
  | none => rw [Option.elim_none,Option.elim_none]
  | some last =>
    rw [Option.elim_some,Option.elim_some,require_of (h.last last hlast now mem_cons_self),ok_bind,pure_eq]

lemma tryTake_spec (hrate : rate < 2^56) (hnow : ∀ c ∈ later,now ≤ c) (h : Sane rate (now::later) b) :
    ∃ b' taken,b.tryTake now = .ok (b',taken) ∧ Sane rate later b' ∧ (b'.lastRefilled = b.lastRefilled ∧
          taken.toNat*tokenMultiplier+b'.tokenFractions = b.tokenFractions ∧
          (taken = false → b.tokenFractions+rate*tokenMultiplier*b.elapsed now/second < tokenMultiplier) ∨
        b'.lastRefilled = some now ∧ taken = true ∧ b.tokenFractions < tokenMultiplier ∧
          tokenMultiplier+b'.tokenFractions = b.tokenFractions+rate*tokenMultiplier*b.elapsed now/second) := by
  have hlater : ∀ last,b.lastRefilled = some last → ∀ c ∈ later,last ≤ c := fun last hlast c hc =>
    h.last last hlast c (mem_cons_of_mem now hc)
  have hfractions := h.fractions
  have hadded : rate*tokenMultiplier*b.elapsed now/second ≤ rate*tokenMultiplier := by
    refine Nat.div_le_of_le_mul ?_
    rw [mul_comm second]
    exact Nat.mul_le_mul_left _ (elapsed_le b now)
  have hfits := fits hrate
  rw [tryTake]
  split_ifs with htoken
  · refine ⟨_,_,rfl,⟨h.perSecond,(Nat.sub_le _ _).trans hfractions,hlater⟩,.inl ⟨rfl,?_,by simp⟩⟩
    rw [Bool.toNat_true,one_mul]
    exact Nat.add_sub_cancel' htoken
  · rw [h.dur_eq,ok_bind,h.perSecond,u64_eq (by omega),ok_bind,u64_eq (by omega),ok_bind]
    split_ifs with htotal
    · refine ⟨_,_,rfl,⟨rfl,?_,?_⟩,.inr ⟨rfl,rfl,not_le.mp htoken,Nat.add_sub_cancel' htotal⟩⟩
      · dsimp only
        omega
      · rintro last ⟨⟩
        exact hnow
    · exact ⟨b,false,rfl,⟨h.perSecond,hfractions,hlater⟩,.inl ⟨rfl,by simp,fun _ => not_le.mp htotal⟩⟩

lemma takeAll_spec (hrate : rate < 2^56) (hsorted : (calls++later).Pairwise (· ≤ ·)) (h : Sane rate (calls++later) b) :
    ∃ b' n,takeAll b calls = .ok (b',n) ∧ Sane rate later b' ∧ ∀ start stop extra,
      (∀ c ∈ calls,start ≤ c ∧ c ≤ stop ∧ b.elapsed c ≤ extra+(c-start)) → n*tokenMultiplier*second ≤
        b.tokenFractions*second+rate*tokenMultiplier*(extra+(stop-start)) := by
  induction calls generalizing b with
  | nil => exact ⟨b,0,rfl,h,fun _ _ _ _ => by simp⟩
  | cons now calls ih =>
    obtain ⟨hnow,hrest⟩ := pairwise_cons.mp hsorted
    obtain ⟨b1,taken,htake,hb1,heffect⟩ := tryTake_spec hrate hnow h
    obtain ⟨b',n,htakes,hb',hle⟩ := ih hrest hb1
    refine ⟨b',taken.toNat+n,?_,hb',fun start stop extra hcalls => ?_⟩
    · rw [takeAll,htake,ok_bind,htakes,ok_bind,pure_eq]
    obtain ⟨hstart,hstop,helapsed⟩ := hcalls now mem_cons_self
    have hmem : ∀ {c},c ∈ calls → c ∈ now::calls := mem_cons_of_mem now
    obtain ⟨hlast,hfractions,-⟩ | ⟨hlast,rfl,-,hfractions⟩ := heffect
    · have hn := hle start stop extra fun c hc => by
        rw [elapsed,hlast]
        exact hcalls c (hmem hc)
      rw [← hfractions]
      linarith
    · have hn := hle now stop 0 fun c hc => by
        rw [elapsed_of hlast,zero_add]
        exact ⟨hnow c (mem_append_left _ hc),(hcalls c (hmem hc)).2.1,min_le_left _ _⟩
      have hcredit := Nat.div_mul_le_self (rate*tokenMultiplier*b.elapsed now) second
      have htime := Nat.mul_le_mul_left (rate*tokenMultiplier) helapsed
      rw [show extra+(stop-start) = extra+(now-start)+(0+(stop-now)) by omega,Bool.toNat_true]
      nlinarith

/-- What calls take in a window after earlier ones, with one second's worth of tokens beyond
what is added in it and what was left before it. -/
def Bounded (rate : ℕ) (before inside : List ℕ) (start stop : ℕ) : Prop :=
  ∃ b₀ b b' m n,new rate = .ok b₀ ∧ takeAll b₀ before = .ok (b,m) ∧ takeAll b inside = .ok (b',n) ∧
    n*tokenMultiplier*second ≤ b.tokenFractions*second+tokenMultiplier*(rate*second+rate*(stop-start)) ∧
    (b.tokenFractions = 0 → n*second ≤ rate*second+rate*(stop-start))

variable {start stop : ℕ}

theorem taken_bounded {before inside : List ℕ} (hrate : rate < 2^56)
    (hsorted : (before++inside).Pairwise (· ≤ ·)) (hinside : ∀ c ∈ inside,start ≤ c ∧ c ≤ stop) :
    Bounded rate before inside start stop := by
  obtain ⟨b,m,hbefore,hb,-⟩ := takeAll_spec hrate hsorted
    (b := ⟨none,0,rate*tokenMultiplier⟩) ⟨rfl,Nat.zero_le _,by simp⟩
  obtain ⟨b',n,htakes,-,hle⟩ := @takeAll_spec b rate inside [] hrate
    (by simpa using (pairwise_append.mp hsorted).2.1) (by simpa using hb)
  have hn := hle start stop second fun c hc =>
    ⟨(hinside c hc).1,(hinside c hc).2,(elapsed_le b c).trans (Nat.le_add_right _ _)⟩
  rw [show rate*tokenMultiplier*(second+(stop-start)) =
    tokenMultiplier*(rate*second+rate*(stop-start)) by ring] at hn
  refine ⟨_,b,b',m,n,new_eq hrate,hbefore,htakes,hn,fun hzero => ?_⟩
  rw [hzero,tokenMultiplier] at hn
  linarith

theorem taken_bounded_sample : (∃ b₀ b,new 2 = .ok b₀ ∧ takeAll b₀ [0,0,0] = .ok (b,2) ∧ b.tokenFractions = 0) ∧
    Bounded 2 [0,0,0] [second,second,second,3*second,3*second] second (3*second) :=
  ⟨⟨_,_,rfl,rfl,rfl⟩,taken_bounded (by decide) (by decide) (by decide)⟩

/-- A token that was left is taken at the same instant as a second's worth of new ones. -/
theorem taken_exceeds : ∃ b₀ b b',new 2 = .ok b₀ ∧ takeAll b₀ [0] = .ok (b,1) ∧
    takeAll b [second,second,second] = .ok (b',3) ∧ ¬3*second ≤ 2*second+2*(second-second) :=
  ⟨_,_,_,rfl,rfl,rfl,by decide⟩

def Refuses (b : TokenBucket) (now : ℕ) : Prop := (b.tryTake now).map Prod.snd = .ok false

/-- The first instant after a call at which no token may be had: a call is made at every instant at which one
could be, and where more than one token is added in an instant, calls are made until none is left. -/
def watched (rate now : ℕ) : ℕ := if rate ≤ second then now+1 else now

/-- What is left in the bucket is taken in time, one token in an instant. -/
structure Ample (rate now : ℕ) (b : TokenBucket) (due : ℕ) : Prop where
  credit : b.tokenFractions*second ≤ rate*tokenMultiplier*(due-now)+second
  tokens : b.tokenFractions < tokenMultiplier*(due-now)

/-- Since the start, each refill has lost less than a fraction and has given a token; at `due` a
second will have passed since the last one. -/
structure Accurate (rate start now watch n : ℕ) (b : TokenBucket) (due : ℕ) : Prop where
  sane : Sane rate [now] b
  counted : ∀ t,now ≤ t → b.elapsed t = min (t+second-due) second
  since : start ≤ due
  ahead : watch ≤ due
  soon : due ≤ now+second
  taken : rate*tokenMultiplier*(due-start) ≤ (n*(tokenMultiplier+1)+b.tokenFractions)*second
  ample : watch = now ∧ (rate ≤ second → b.tokenFractions = 0) ∨ watch = now+1 ∧ rate ≤ second ∧ Ample rate now b due

variable {due t watch : ℕ}

lemma Accurate.le_watch (h : Accurate rate start now watch n b due) : now ≤ watch := by
  obtain ⟨rfl,-⟩ | ⟨rfl,-⟩ := h.ample
  · exact le_rfl
  · exact Nat.le_succ now

lemma Accurate.sane_at (h : Accurate rate start now watch n b due) (ht : now ≤ t) : Sane rate [t,t] b := by
  refine ⟨h.sane.perSecond,h.sane.fractions,fun last hlast c hc => ?_⟩
  obtain rfl : c = t := by simpa using hc
  exact (h.sane.last last hlast now mem_cons_self).trans ht

lemma Accurate.refuses (hrate : rate < 2^56) (h : Accurate rate start now watch n b due) (ht : now ≤ t)
    (hrefuses : b.Refuses t) :
    b.tokenFractions+rate*tokenMultiplier*min (t+second-due) second/second < tokenMultiplier := by
  obtain ⟨b',taken,htake,-,heffect⟩ := tryTake_spec hrate (by simp) (h.sane_at ht)
  rw [Refuses,htake] at hrefuses
  cases hrefuses
  rw [← h.counted t ht]
  obtain ⟨-,-,hlt⟩ | ⟨-,hfalse,-⟩ := heffect
  · exact hlt rfl
  · cases hfalse

lemma full_not_refused (hpos : 1 ≤ rate) :
    tokenMultiplier ≤ b.tokenFractions+rate*tokenMultiplier*min second second/second := by
  rw [min_self,Nat.mul_div_cancel _ (by decide)]
  exact (Nat.le_mul_of_pos_left tokenMultiplier hpos).trans (Nat.le_add_left _ _)

lemma Accurate.le_due (hpos : 1 ≤ rate) (hrate : rate < 2^56) (h : Accurate rate start now watch n b due)
    (hrefuses : ∀ u,watch ≤ u → u < t → b.Refuses u) : t ≤ due := by
  by_contra hlt
  have hfull := h.refuses hrate (h.le_watch.trans h.ahead) (hrefuses due h.ahead (not_le.mp hlt))
  rw [Nat.add_sub_cancel_left] at hfull
  exact absurd (full_not_refused hpos) (not_le.mpr hfull)

lemma lt_succ_div (x : ℕ) : x < second*(x/second+1) := Nat.lt_mul_div_succ x (by decide)

lemma Accurate.refused (hpos : 1 ≤ rate) (hrate : rate < 2^56) (h : Accurate rate start now watch n b due)
    (ht : now ≤ t) (hdue : t ≤ due) (hrefuses : b.Refuses t) :
    b.tokenFractions*second+rate*tokenMultiplier*(t+second-due) < (tokenMultiplier+1)*second ∧ t < due ∧
      b.tokenFractions < tokenMultiplier := by
  have hlt := h.refuses hrate ht hrefuses
  have hsoon := h.soon
  refine ⟨?_,hdue.lt_of_ne ?_,(Nat.le_add_right _ _).trans_lt hlt⟩
  · rw [min_eq_left (by omega)] at hlt
    have hcredit := lt_succ_div (rate*tokenMultiplier*(t+second-due))
    generalize rate*tokenMultiplier*(t+second-due)/second = q at hlt hcredit
    have hleft : (b.tokenFractions+q+1)*second ≤ tokenMultiplier*second := Nat.mul_le_mul_right second hlt
    linarith
  · rintro rfl
    rw [Nat.add_sub_cancel_left] at hlt
    exact absurd (full_not_refused hpos) (not_le.mpr hlt)

lemma Accurate.call (hpos : 1 ≤ rate) (hrate : rate < 2^56) (h : Accurate rate start now watch n b due)
    {c : ℕ} (hc : now ≤ c) (hrefuses : ∀ u,watch ≤ u → u < c → b.Refuses u) : ∃ b' taken due',
      b.tryTake c = .ok (b',taken) ∧ Accurate rate start c (watched rate c) (n+taken.toNat) b' due' := by
  have hle := h.le_due hpos hrate hrefuses
  have htaken := h.taken
  have hstart := h.since
  have hsoon := h.soon
  obtain ⟨b1,taken,htake,hb1,heffect⟩ := tryTake_spec hrate (by simp) (h.sane_at hc)
  have helapsed : b.elapsed c = c+second-due := by
    rw [h.counted c hc,min_eq_left (by omega)]
  obtain ⟨hsame,hfractions,hfalse⟩ | ⟨hrefill,rfl,hlow,hfractions⟩ := heffect
  · -- a token that was left, or none
    have hample : rate ≤ second → Ample rate c b1 due := by
      intro hslow
      cases taken with
      | false =>
        obtain ⟨hcredit,hlt,hlow⟩ := h.refused hpos hrate hc hle (by rw [Refuses,htake]; rfl)
        rw [Bool.toNat_false,zero_mul,zero_add] at hfractions
        refine ⟨?_,?_⟩
        · rw [hfractions]
          have hsplit : rate*tokenMultiplier*(c+second-due)+rate*tokenMultiplier*(due-c) =
              rate*tokenMultiplier*second := by
            rw [← mul_add]
            congr 1
            omega
          have hone := Nat.mul_le_mul_right (tokenMultiplier*second) hpos
          nlinarith
        · rw [hfractions]
          exact hlow.trans_le (Nat.le_mul_of_pos_right _ (by omega))
      | true =>
        rw [Bool.toNat_true,one_mul] at hfractions
        obtain ⟨-,hzero⟩ | ⟨rfl,-,hcredit,htokens⟩ := h.ample
        · rw [hzero hslow,tokenMultiplier] at hfractions
          omega
        have hnext : c ≤ now+1 := by
          by_contra hlt
          have hless := (Nat.le_add_right _ _).trans_lt
            (h.refuses hrate (Nat.le_succ now) (hrefuses (now+1) le_rfl (not_le.mp hlt)))
          omega
        have hgap : due-now ≤ due-c+1 := by omega
        have htime := Nat.mul_le_mul_left (rate*tokenMultiplier) hgap
        have hcount := Nat.mul_le_mul_left tokenMultiplier hgap
        rw [mul_add,mul_one] at hcount
        have hspeed := Nat.mul_le_mul_right tokenMultiplier hslow
        refine ⟨?_,?_⟩
        · rw [← hfractions] at hcredit
          nlinarith
        · omega
    refine ⟨b1,taken,due,htake,hb1,fun t ht => ?_,hstart,?_,by omega,?_,?_⟩
    · rw [TokenBucket.elapsed,hsame]
      exact h.counted t (hc.trans ht)
    · rw [watched]
      split_ifs with hslow
      · have htokens := (hample hslow).tokens
        by_contra hlt
        rw [Nat.sub_eq_zero_of_le (by omega),mul_zero] at htokens
        omega
      · exact hle
    · rw [← hfractions] at htaken
      have htoken := Nat.zero_le (taken.toNat*second)
      linarith
    · rw [watched]
      split_ifs with hslow
      · exact .inr ⟨rfl,hslow,hample hslow⟩
      · exact .inl ⟨rfl,fun hslow' => absurd hslow' hslow⟩
  · rw [helapsed] at hfractions
    have hcredit := lt_succ_div (rate*tokenMultiplier*(c+second-due))
    have hfloor := Nat.div_mul_le_self (rate*tokenMultiplier*(c+second-due)) second
    generalize rate*tokenMultiplier*(c+second-due)/second = q at hfractions hcredit hfloor
    have htime := Nat.mul_le_mul_left (rate*tokenMultiplier) (show c+second-due ≤ second by omega)
    refine ⟨b1,true,c+second,htake,hb1,fun t ht => ?_,by omega,?_,le_rfl,?_,?_⟩
    · rw [elapsed_of hrefill,Nat.add_sub_add_right]
    · rw [watched]
      split_ifs
      · exact Nat.add_le_add_left (by decide) c
      · exact Nat.le_add_right c second
    · rw [show c+second-start = due-start+(c+second-due) by omega,Bool.toNat_true]
      nlinarith
    · rw [watched]
      split_ifs with hslow
      · have hspeed := Nat.mul_le_mul_right tokenMultiplier hslow
        have hless : b1.tokenFractions < q := by omega
        refine .inr ⟨rfl,hslow,?_,?_⟩
        · rw [Nat.add_sub_cancel_left]
          nlinarith
        · rw [Nat.add_sub_cancel_left]
          have hq : q*second ≤ tokenMultiplier*second*second := by nlinarith
          exact hless.trans_le (Nat.le_of_mul_le_mul_right hq (by decide))
      · exact .inl ⟨rfl,fun hslow' => absurd hslow' hslow⟩

end TokenBucket

end Fuchsia.Netstack
