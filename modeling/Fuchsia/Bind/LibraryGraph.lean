import Fuchsia.Bind.Resolution
import Fuchsia.Bind.SymbolTable

/-! The graph that the libraries and their includes make, and the order in which they are
resolved. -/
namespace Fuchsia.Bind

open Effect Relation BindLibrary DependencyGraph List

abbrev LibraryGraph : Type := DependencyGraph CompoundIdentifier Ast

/-- The first library names the second one in its `using` list. -/
def Uses (libraries : List Ast) (a b : Ast) : Prop := b ∈ libraries ∧ ∃ i ∈ a.includes,i.name = b.name

/-- The libraries that the rules use, directly or through other libraries. -/
inductive Reachable (includes : List Include) (libraries : List Ast) : Ast → Prop
  | direct {i : Include} {a : Ast} (hi : i ∈ includes) (ha : a ∈ libraries) (h : i.name = a.name) :
    Reachable includes libraries a
  | through {a b : Ast} (ha : Reachable includes libraries a) (h : Uses libraries a b) :
    Reachable includes libraries b

def Closed (includes : List Include) (libraries : List Ast) : Prop :=
  (∀ i ∈ includes,∃ a ∈ libraries,i.name = a.name) ∧
    ∀ b ∈ libraries,∀ i ∈ b.includes,∃ a ∈ libraries,i.name = a.name

variable {g g' : LibraryGraph} {libraries : List Ast} {includes : List Include} {x y : ℕ} {a b : Ast}

lemma Reachable.mem (h : Reachable includes libraries a) : a ∈ libraries := by
  cases h with
  | direct _ ha _ => exact ha
  | through _ h => exact h.1

namespace LibraryGraph

structure Listed (g : LibraryGraph) (libraries : List Ast) : Prop where
  nodes : g.nodes = .root::libraries.map fun a => .data a.name a
  indices : ∀ k x,g.indices.lookup k = some x ↔ ∃ n a,x = n+1 ∧ libraries[n]? = some a ∧ a.name = k

section

variable (h : Listed g libraries)
include h

lemma Listed.valueAt_iff : g.valueAt x = some a ↔ ∃ n,x = n+1 ∧ libraries[n]? = some a := by
  cases x with
  | zero => simp [valueAt,h.nodes]
  | succ n =>
    rw [valueAt,h.nodes,getElem?_cons_succ,getElem?_map]
    cases hn : libraries[n]? <;> simp [hn]

lemma Listed.mem (ha : g.valueAt x = some a) : a ∈ libraries := by
  obtain ⟨n,-,hn⟩ := h.valueAt_iff.mp ha
  exact mem_of_getElem? hn

lemma Listed.exists_valueAt (ha : a ∈ libraries) : ∃ x,g.valueAt x = some a := by
  obtain ⟨n,hn⟩ := mem_iff_getElem?.mp ha
  exact ⟨n+1,h.valueAt_iff.mpr ⟨n,rfl,hn⟩⟩

lemma Listed.index_lt (ha : g.valueAt x = some a) : x < g.nodes.length := by
  obtain ⟨n,rfl,hn⟩ := h.valueAt_iff.mp ha
  have hlt := (List.getElem?_eq_some_iff.mp hn).1
  simp [h.nodes]
  omega

lemma Listed.ne_zero (ha : g.valueAt x = some a) : x ≠ 0 := by
  obtain ⟨n,rfl,-⟩ := h.valueAt_iff.mp ha
  exact Nat.succ_ne_zero n

lemma Listed.lookup_iff {k : CompoundIdentifier} :
    g.indices.lookup k = some x ↔ ∃ a,g.valueAt x = some a ∧ a.name = k := by
  rw [h.indices]
  constructor
  · rintro ⟨n,a,rfl,hn,hk⟩
    exact ⟨a,h.valueAt_iff.mpr ⟨n,rfl,hn⟩,hk⟩
  · rintro ⟨a,ha,hk⟩
    obtain ⟨n,hx,hn⟩ := h.valueAt_iff.mp ha
    exact ⟨n,a,hx,hn,hk⟩

end

lemma getElem?_append_singleton {l : List Ast} {n : ℕ} :
    (l++[a])[n]? = some b ↔ l[n]? = some b ∨ n = l.length ∧ a = b := by
  obtain hlt | rfl | hgt := lt_trichotomy n l.length
  · rw [getElem?_append_left hlt]
    simp [hlt.ne]
  · simp
  · rw [getElem?_eq_none (by simpa using hgt),getElem?_eq_none hgt.le]
    simp [hgt.ne']

structure Bare (g : LibraryGraph) (libraries : List Ast) : Prop where
  listed : Listed g libraries
  children : g.children = ∅
  parents : g.parents = ∅

lemma insertNode_bare (h : Bare g libraries) (ha : a.name ∉ libraries.map Ast.name) :
    ∃ g',insertNode a.name a g = .ok () g' ∧ Bare g' (libraries++[a]) := by
  have hnone : g.indices.lookup a.name = none := by
    cases hl : g.indices.lookup a.name with
    | none => rfl
    | some x =>
      obtain ⟨b,hb,hname⟩ := h.listed.lookup_iff.mp hl
      exact absurd (mem_map.mpr ⟨b,h.listed.mem hb,hname⟩) ha
  have hlen : g.nodes.length = libraries.length+1 := by simp [h.listed.nodes]
  refine ⟨{g with
    nodes := g.nodes++[.data a.name a]
    indices := g.indices.insert a.name g.nodes.length},?_,⟨?_,fun k x => ?_⟩,h.children,h.parents⟩
  · simp only [insertNode,get_bind,modify_bind,hnone]
    rfl
  · simp [h.listed.nodes]
  · by_cases hk : k = a.name
    · subst hk
      simp only [AList.lookup_insert,Option.some.injEq,hlen]
      constructor
      · rintro rfl
        exact ⟨libraries.length,a,rfl,by simp,rfl⟩
      · rintro ⟨n,b,rfl,hn,hname⟩
        obtain hlt | ⟨hle,hb⟩ := getElem?_append_singleton.mp hn
        · exact absurd (mem_map.mpr ⟨b,mem_of_getElem? hlt,hname⟩) ha
        · rw [hle]
    · rw [AList.lookup_insert_ne hk,h.listed.indices]
      constructor
      · rintro ⟨n,b,hx,hn,hname⟩
        exact ⟨n,b,hx,getElem?_append_singleton.mpr (.inl hn),hname⟩
      · rintro ⟨n,b,hx,hn,hname⟩
        obtain hlt | ⟨-,rfl⟩ := getElem?_append_singleton.mp hn
        · exact ⟨n,b,hx,hlt,hname⟩
        · exact absurd hname.symm hk

lemma insertNodes_bare {more : List Ast} (h : Bare g libraries) (hnames : ((libraries++more).map Ast.name).Nodup) :
    ∃ g',(more.forM fun a => insertNode a.name a) g = .ok () g' ∧ Bare g' (libraries++more) := by
  induction more generalizing g libraries with
  | nil => exact ⟨g,rfl,by simpa using h⟩
  | cons a more ih =>
    have hnot : a.name ∉ libraries.map Ast.name := by
      rw [map_append,map_cons,nodup_append] at hnames
      intro hmem
      exact hnames.2.2 a.name hmem a.name mem_cons_self rfl
    obtain ⟨g1,hg1,h1⟩ := insertNode_bare h hnot
    obtain ⟨g2,hg2,h2⟩ := ih h1 (by simpa using hnames)
    refine ⟨g2,?_,by simpa using h2⟩
    change (insertNode a.name a >>= fun _ =>
      more.forM fun a => insertNode a.name a) g = _
    rw [bind_of_ok hg1,hg2]

lemma valueAt_congr (h : g'.nodes = g.nodes) : g'.valueAt x = g.valueAt x := by rw [valueAt,valueAt,h]

structure Extended (g g' : LibraryGraph) (new : ℕ → ℕ → Prop) : Prop where
  nodes : g'.nodes = g.nodes
  indices : g'.indices = g.indices
  coherent : g'.Coherent
  edge : ∀ x y,y ∈ g'.childrenOf x ↔ y ∈ g.childrenOf x ∨ new x y

lemma Extended.listed {new : ℕ → ℕ → Prop} (h : Extended g g' new) (hg : Listed g libraries) : Listed g' libraries where
  nodes := h.nodes.trans hg.nodes
  indices k x := by rw [h.indices,hg.indices]

def insertEdgeFrom (x : ℕ) (target : CompoundIdentifier) :
    DependencyGraph.Call CompoundIdentifier Ast Unit := do
  let y ← getIndex target
  modify fun g => g.link x y

lemma insertEdge_eq {source : CompoundIdentifier} (h : g.indices.lookup source = some x)
    (target : CompoundIdentifier) : insertEdge source target g = insertEdgeFrom x target g := by
  have hsource : getIndex source g = .ok x g := by simp [getIndex,h]
  rw [insertEdge,bind_of_ok hsource]
  rfl

lemma insertEdgeFrom_ends (hg : Listed g libraries) (hc : g.Coherent) (hx : x < g.nodes.length)
    (target : CompoundIdentifier) :
    Ends False (insertEdgeFrom x target) g (fun _ g' => (∃ a ∈ libraries,target = a.name) ∧
        Extended g g' fun x' y => x' = x ∧ ∃ a,g.valueAt y = some a ∧ target = a.name)
      (fun _ _ => ∀ a ∈ libraries,target ≠ a.name) := by
  cases hl : g.indices.lookup target with
  | none =>
    have hfail : insertEdgeFrom x target g = .fail (.missingDependency target) g := by
      apply bind_of_fail
      simp [getIndex,hl]
    rw [Ends,hfail]
    rintro a ha rfl
    obtain ⟨y,hy⟩ := hg.exists_valueAt ha
    rw [hg.lookup_iff.mpr ⟨a,hy,rfl⟩] at hl
    cases hl
  | some y =>
    obtain ⟨a,ha,hname⟩ := hg.lookup_iff.mp hl
    have hok : insertEdgeFrom x target g = .ok () (g.link x y) := by
      have hindex : getIndex target g = .ok y g := by simp [getIndex,hl]
      rw [insertEdgeFrom,bind_of_ok hindex]
      rfl
    refine Ends.of_eq hok ⟨⟨a,hg.mem ha,hname.symm⟩,rfl,rfl,hc.link hx (hg.index_lt ha),?_⟩
    intro x' y'
    rw [mem_childrenOf_link]
    refine or_congr_right (and_congr_right fun _ => ?_)
    constructor
    · rintro rfl
      exact ⟨a,ha,hname.symm⟩
    · rintro ⟨b,hb,rfl⟩
      have hindex := hg.lookup_iff.mpr ⟨b,hb,rfl⟩
      rw [hl] at hindex
      exact (Option.some.inj hindex).symm

lemma includes_ends {f : CompoundIdentifier → DependencyGraph.Call CompoundIdentifier Ast Unit} (hg : Listed g libraries)
    (hc : g.Coherent) (hx : x < g.nodes.length)
    (hf : ∀ (h : LibraryGraph) k,h.indices = g.indices → f k h = insertEdgeFrom x k h) (includes : List Include) :
    Ends False (includes.forM fun i => f i.name) g (fun _ g' => (∀ i ∈ includes,∃ a ∈ libraries,i.name = a.name) ∧
        Extended g g' fun x' y => x' = x ∧ ∃ a,g.valueAt y = some a ∧ ∃ i ∈ includes,i.name = a.name)
      (fun _ _ => ∃ i ∈ includes,∀ a ∈ libraries,i.name ≠ a.name) := by
  induction includes generalizing g with
  | nil =>
    refine Ends.of_eq rfl ⟨by simp,rfl,rfl,hc,fun x' y => ?_⟩
    simp
  | cons i includes ih =>
    change Ends False (f i.name >>= fun _ => includes.forM fun i => f i.name) g _ _
    apply Ends.bind
    have hfirst := insertEdgeFrom_ends hg hc hx i.name
    rw [Ends,← hf g i.name rfl] at hfirst
    refine Ends.mono hfirst ?_ fun e h hnone => ⟨i,mem_cons_self,hnone⟩
    rintro - g1 ⟨hi,h1⟩
    have hrest := ih (h1.listed hg) h1.coherent (by rwa [h1.nodes]) fun h k hh => hf h k (hh.trans h1.indices)
    refine hrest.mono ?_ ?_
    · rintro - g2 ⟨hall,h2⟩
      refine ⟨forall_mem_cons.mpr ⟨hi,hall⟩,h2.nodes.trans h1.nodes,h2.indices.trans h1.indices,h2.coherent,?_⟩
      · intro x' y
        rw [h2.edge,h1.edge,valueAt_congr h1.nodes]
        simp only [mem_cons,exists_eq_or_imp,and_or_left,exists_or]
        exact or_assoc
    · exact fun e h => exists_mem_cons_of_exists

lemma libraries_ends {bs : List Ast} (hg : Listed g libraries) (hc : g.Coherent) (hbs : ∀ b ∈ bs,b ∈ libraries) :
    Ends False (bs.forM fun b => b.includes.forM fun i => insertEdge b.name i.name) g
      (fun _ g' => (∀ b ∈ bs,∀ i ∈ b.includes,∃ a ∈ libraries,i.name = a.name) ∧
        Extended g g' fun x y => ∃ b ∈ bs,g.valueAt x = some b ∧
          ∃ a,g.valueAt y = some a ∧ ∃ i ∈ b.includes,i.name = a.name)
      (fun _ _ => ∃ b ∈ bs,∃ i ∈ b.includes,∀ a ∈ libraries,i.name ≠ a.name) := by
  induction bs generalizing g with
  | nil =>
    refine Ends.of_eq rfl ⟨by simp,rfl,rfl,hc,fun x' y => ?_⟩
    simp
  | cons b bs ih =>
    obtain ⟨x,hx⟩ := hg.exists_valueAt (hbs b mem_cons_self)
    have hindex := hg.lookup_iff.mpr ⟨b,hx,rfl⟩
    have hfirst := includes_ends hg hc (hg.index_lt hx) (fun h k hh => insertEdge_eq (hh ▸ hindex) k) b.includes
    change Ends False ((b.includes.forM fun i => insertEdge b.name i.name) >>= fun _ =>
      bs.forM fun b => b.includes.forM fun i => insertEdge b.name i.name) g _ _
    apply Ends.bind
    refine Ends.mono hfirst ?_ fun e h hnone => ⟨b,mem_cons_self,hnone⟩
    rintro - g1 ⟨hb,h1⟩
    refine (ih (h1.listed hg) h1.coherent (forall_mem_cons.mp hbs).2).mono ?_ ?_
    · rintro - g2 ⟨hall,h2⟩
      refine ⟨forall_mem_cons.mpr ⟨hb,hall⟩,h2.nodes.trans h1.nodes,h2.indices.trans h1.indices,h2.coherent,?_⟩
      · intro x' y
        have hsame : x' = x ↔ g.valueAt x' = some b := by
          constructor
          · rintro rfl
            exact hx
          · intro hx'
            have hindex' := hg.lookup_iff.mpr ⟨b,hx',rfl⟩
            exact Option.some.inj (hindex'.symm.trans hindex)
        rw [h2.edge,h1.edge,valueAt_congr h1.nodes,valueAt_congr h1.nodes,hsame]
        simp only [mem_cons,exists_eq_or_imp]
        exact or_assoc
    · exact fun e h => exists_mem_cons_of_exists

structure Complete (g : LibraryGraph) (includes : List Include) (libraries : List Ast) : Prop where
  listed : Listed g libraries
  coherent : g.Coherent
  edge : ∀ x y,y ∈ g.childrenOf x ↔ ∃ a,g.valueAt y = some a ∧
    ((x = 0 ∧ ∃ i ∈ includes,i.name = a.name) ∨ ∃ b,g.valueAt x = some b ∧ ∃ i ∈ b.includes,i.name = a.name)

lemma Bare.coherent (h : Bare g libraries) : g.Coherent where
  mirrored x y := by simp [childrenOf,parentsOf,h.children,h.parents]
  indexed x k a hx := by
    have hvalue : g.valueAt x = some a := by rw [valueAt,hx]
    obtain ⟨n,rfl,hn⟩ := h.listed.valueAt_iff.mp hvalue
    rw [h.listed.nodes,getElem?_cons_succ,getElem?_map,hn] at hx
    simp only [Option.map_some,Option.some.injEq,Node.data.injEq] at hx
    exact h.listed.lookup_iff.mpr ⟨a,hvalue,hx.1⟩
  inside x y hy := by simp [childrenOf,h.children] at hy

lemma build_ends {A : Type} {next : DependencyGraph.Call CompoundIdentifier Ast A}
    {ok : A → LibraryGraph → Prop} {fail : DependencyError CompoundIdentifier → LibraryGraph → Prop}
    (hnames : (libraries.map Ast.name).Nodup)
    (hnext : ∀ g,Closed includes libraries → Complete g includes libraries → Ends False next g ok fail)
    (hfail : ∀ e g,¬Closed includes libraries → fail e g) : Ends False (do
      libraries.forM fun library => insertNode library.name library
      includes.forM fun i => insertEdgeFromRoot i.name
      libraries.forM fun library =>
        library.includes.forM fun i => insertEdge library.name i.name
      next) new ok fail := by
  have hnew : Bare new [] := ⟨⟨rfl,by simp [new]⟩,rfl,rfl⟩
  obtain ⟨g,hg,hbare⟩ := insertNodes_bare hnew (by simpa using hnames)
  rw [nil_append] at hbare
  have hroot : 0 < g.nodes.length := by simp [hbare.listed.nodes]
  apply Ends.bind
  apply Ends.of_eq hg
  apply Ends.bind
  refine (includes_ends hbare.listed hbare.coherent hroot (fun h k _ => rfl) includes).mono ?_ ?_
  · rintro - g1 ⟨hincludes,h1⟩
    apply Ends.bind
    refine (libraries_ends (h1.listed hbare.listed) h1.coherent fun b hb => hb).mono ?_ ?_
    · rintro - g2 ⟨hlibraries,h2⟩
      apply hnext g2 ⟨hincludes,hlibraries⟩
      refine ⟨h2.listed (h1.listed hbare.listed),h2.coherent,fun x y => ?_⟩
      have hnone : y ∉ g.childrenOf x := by simp [childrenOf,hbare.children]
      rw [h2.edge,h1.edge,valueAt_congr h2.nodes,valueAt_congr h2.nodes,valueAt_congr h1.nodes,valueAt_congr h1.nodes]
      constructor
      · rintro ((hold | ⟨hx,a,ha,hi⟩) | ⟨b,-,hb,a,ha,hi⟩)
        · exact absurd hold hnone
        · exact ⟨a,ha,.inl ⟨hx,hi⟩⟩
        · exact ⟨a,ha,.inr ⟨b,hb,hi⟩⟩
      · rintro ⟨a,ha,⟨hx,hi⟩ | ⟨b,hb,hi⟩⟩
        · exact .inl (.inr ⟨hx,a,ha,hi⟩)
        · exact .inr ⟨b,hbare.listed.mem hb,hb,a,ha,hi⟩
    · rintro e h ⟨b,hb,i,hi,hnone⟩
      apply hfail e h
      intro hclosed
      obtain ⟨a,ha,hname⟩ := hclosed.2 b hb i hi
      exact hnone a ha hname
  · rintro e h ⟨i,hi,hnone⟩
    apply hfail e h
    intro hclosed
    obtain ⟨a,ha,hname⟩ := hclosed.1 i hi
    exact hnone a ha hname

section

variable (h : Complete g includes libraries)
include h

lemma Complete.built : g.Built where
  coherent := h.coherent
  root := by rw [h.listed.nodes]; rfl
  data x hx hlen := by
    obtain ⟨n,rfl⟩ := Nat.exists_eq_succ_of_ne_zero hx
    have hn : n < libraries.length := by simpa [h.listed.nodes] using hlen
    refine ⟨libraries[n].name,libraries[n],?_⟩
    simp [h.listed.nodes,getElem?_eq_getElem hn]
  source := by
    apply Finset.eq_empty_of_forall_notMem
    intro x hx
    obtain ⟨a,ha,-⟩ := (h.edge x 0).mp ((h.coherent.mirrored x 0).mpr hx)
    exact h.listed.ne_zero ha rfl

lemma Complete.uses (ha : g.valueAt x = some a)
    (hb : g.valueAt y = some b) : y ∈ g.childrenOf x ↔ Uses libraries a b := by
  rw [h.edge]
  constructor
  · rintro ⟨c,hc,⟨hx,-⟩ | ⟨d,hd,hi⟩⟩
    · exact absurd hx (h.listed.ne_zero ha)
    · rw [hb] at hc
      rw [ha] at hd
      cases hc
      cases hd
      exact ⟨h.listed.mem hb,hi⟩
  · rintro ⟨-,hi⟩
    exact ⟨b,hb,.inr ⟨a,ha,hi⟩⟩

lemma Complete.reaches_iff (ha : g.valueAt x = some a) : g.Reaches x ↔ Reachable includes libraries a := by
  constructor
  · intro hr
    induction hr generalizing a with
    | refl => exact absurd rfl (h.listed.ne_zero ha)
    | tail _ hedge ih =>
      obtain ⟨c,hc,⟨-,i,hi,hname⟩ | ⟨b,hb,hi⟩⟩ := (h.edge _ _).mp hedge
      · rw [ha] at hc
        cases hc
        exact .direct hi (h.listed.mem ha) hname
      · rw [ha] at hc
        cases hc
        exact .through (ih hb) ⟨h.listed.mem ha,hi⟩
  · intro hr
    induction hr generalizing x with
    | @direct i a hi _ hname =>
      exact ReflTransGen.single ((h.edge 0 x).mpr ⟨a,ha,.inl ⟨rfl,i,hi,hname⟩⟩)
    | @through b a hb huses ih =>
      obtain ⟨y,hy⟩ := h.listed.exists_valueAt hb.mem
      exact (ih hy).tail ((h.uses hy ha).mpr huses)

lemma Complete.transGen (hr : TransGen (fun x y => y ∈ g.childrenOf x) x y) (ha : g.valueAt x = some a) :
    ∃ b,g.valueAt y = some b ∧ TransGen (Uses libraries) a b := by
  induction hr with
  | single hedge =>
    obtain ⟨b,hb,-⟩ := (h.edge _ _).mp hedge
    exact ⟨b,hb,.single ((h.uses ha hb).mp hedge)⟩
  | tail _ hedge ih =>
    obtain ⟨b,hb,hab⟩ := ih
    obtain ⟨c,hc,-⟩ := (h.edge _ _).mp hedge
    exact ⟨c,hc,hab.tail ((h.uses hb hc).mp hedge)⟩

lemma Complete.wellFounded (hacyclic : ∀ a ∈ libraries,¬TransGen (Uses libraries) a a) :
    WellFounded fun x y => y ∈ g.childrenOf x := by
  apply Acyclic.wellFounded (Finset.range g.nodes.length)
  · intro x y hy
    exact Finset.mem_range.mpr (h.coherent.inside x y hy).1
  · intro x hcycle
    obtain ⟨y,-,hedge⟩ := TransGen.tail'_iff.mp hcycle
    obtain ⟨a,ha,-⟩ := (h.edge y x).mp hedge
    obtain ⟨b,hb,hab⟩ := h.transGen hcycle ha
    rw [ha] at hb
    cases hb
    exact hacyclic a (h.listed.mem ha) hab

end

end LibraryGraph

/-- The order in which the libraries are resolved: no library comes after one that it uses. -/
structure Ordered (includes : List Include) (libraries dependencies : List Ast) : Prop where
  nodup : dependencies.Nodup
  mem : ∀ a,a ∈ dependencies ↔ Reachable includes libraries a
  order : dependencies.Pairwise fun a b => ¬Uses libraries b a

lemma LibraryGraph.Complete.ordered {done : List ℕ} (h : LibraryGraph.Complete g includes libraries)
    (hnodup : done.Nodup) (hmem : ∀ x,x ∈ done ↔ g.Reaches x) (horder : done.Pairwise fun x y => x ∉ g.childrenOf y) :
    Ordered includes libraries (done.filterMap g.valueAt) where
  nodup := by
    refine hnodup.filterMap fun x y a hx hy => ?_
    have hindex := h.listed.lookup_iff.mpr ⟨a,hx,rfl⟩
    have hindex' := h.listed.lookup_iff.mpr ⟨a,hy,rfl⟩
    exact Option.some.inj (hindex.symm.trans hindex')
  mem a := by
    rw [mem_filterMap]
    constructor
    · rintro ⟨x,hx,ha⟩
      exact (h.reaches_iff ha).mp ((hmem x).mp hx)
    · intro ha
      obtain ⟨x,hx⟩ := h.listed.exists_valueAt ha.mem
      exact ⟨x,(hmem x).mpr ((h.reaches_iff hx).mpr ha),hx⟩
  order := by
    rw [pairwise_filterMap]
    refine horder.imp ?_
    intro x y hxy a ha b hb huses
    exact hxy ((h.uses hb ha).mpr huses)

lemma resolveDependencies_ends {P : Type} (order : Traversal) (includes : List Include)
    (hnames : (libraries.map Ast.name).Nodup) (hacyclic : ∀ a ∈ libraries,¬TransGen (Uses libraries) a a) :
    Ends False (resolveDependencies (P := P) order includes libraries) ()
      (fun dependencies _ => Closed includes libraries ∧ Ordered includes libraries dependencies)
      (fun _ _ => ¬Closed includes libraries) := by
  apply Ends.isolate
  apply LibraryGraph.build_ends hnames
  · intro g hclosed hg
    obtain ⟨done,g',hresolve,hnodup,hmem,horder⟩ := hg.built.resolve order (hg.wellFounded hacyclic)
    exact Ends.of_eq hresolve ⟨hclosed,hg.ordered hnodup hmem horder⟩
  · exact fun e g hclosed => hclosed

end Fuchsia.Bind
