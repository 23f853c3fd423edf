import Fuchsia.Bind.DependencyGraph
import Fuchsia.Lib.Acyclic

/-! What a dependency graph without cycles resolves to: the nodes that are reachable from the
root, each of them before the nodes that it depends on. -/
namespace Fuchsia.Bind.DependencyGraph

open Effect Relation Finset DependencyGraph

set_option linter.unusedSectionVars false

variable {K V : Type} [DecidableEq K] {g : DependencyGraph K V} {i j x y : ℕ} {cs : List ℕ}

structure Coherent (g : DependencyGraph K V) : Prop where
  mirrored : ∀ i j,j ∈ g.childrenOf i ↔ i ∈ g.parentsOf j
  indexed : ∀ i k v,g.nodes[i]? = some (.data k v) → g.indices.lookup k = some i
  inside : ∀ i j,j ∈ g.childrenOf i → i < g.nodes.length ∧ j < g.nodes.length

def cut (g : DependencyGraph K V) (i j : ℕ) : DependencyGraph K V := {g with
  parents := g.parents.insert j ((g.parentsOf j).erase i)
  children := g.children.insert i ((g.childrenOf i).erase j)}

lemma mem_childrenOf_link : y ∈ (g.link i j).childrenOf x ↔ y ∈ g.childrenOf x ∨ x = i ∧ y = j := by
  by_cases hx : x = i
  · subst hx
    simp [childrenOf,link,or_comm]
  · simp [childrenOf,link,hx]

lemma mem_parentsOf_link : x ∈ (g.link i j).parentsOf y ↔ x ∈ g.parentsOf y ∨ x = i ∧ y = j := by
  by_cases hy : y = j
  · subst hy
    simp [parentsOf,link,or_comm]
  · simp [parentsOf,link,hy]

lemma mem_childrenOf_cut : y ∈ (g.cut i j).childrenOf x ↔ y ∈ g.childrenOf x ∧ ¬(x = i ∧ y = j) := by
  by_cases hx : x = i
  · subst hx
    simp [childrenOf,cut,and_comm]
  · simp [childrenOf,cut,hx]

lemma mem_parentsOf_cut : x ∈ (g.cut i j).parentsOf y ↔ x ∈ g.parentsOf y ∧ ¬(x = i ∧ y = j) := by
  by_cases hy : y = j
  · subst hy
    simp [parentsOf,cut,and_comm]
  · simp [parentsOf,cut,hy]

lemma Coherent.link (hc : g.Coherent) (hi : i < g.nodes.length) (hj : j < g.nodes.length) : (g.link i j).Coherent where
  mirrored x y := by rw [mem_childrenOf_link,mem_parentsOf_link,hc.mirrored]
  indexed := hc.indexed
  inside x y h := by
    obtain h | ⟨rfl,rfl⟩ := mem_childrenOf_link.mp h
    · exact hc.inside x y h
    · exact ⟨hi,hj⟩

lemma Coherent.cut (hc : g.Coherent) : (g.cut i j).Coherent where
  mirrored x y := by rw [mem_childrenOf_cut,mem_parentsOf_cut,hc.mirrored]
  indexed := hc.indexed
  inside x y h := hc.inside x y (mem_childrenOf_cut.mp h).1

lemma lookup_of_mem_getD {m : AList fun _ : ℕ => Finset ℕ} (h : x ∈ (m.lookup i).getD ∅) :
    m.lookup i = some ((m.lookup i).getD ∅) := by
  cases hm : m.lookup i with
  | none => simp [hm] at h
  | some s => rfl

lemma removeEdge_eq (hc : g.Coherent) (h : j ∈ g.childrenOf i) : removeEdge i j g = .ok () (g.cut i j) := by
  have hchildren := lookup_of_mem_getD h
  have hparents := lookup_of_mem_getD ((hc.mirrored i j).mp h)
  simp only [removeEdge,get_bind]
  rw [hparents]
  simp only [modify_bind]
  rw [hchildren]
  rfl

def cutAll (g : DependencyGraph K V) (i : ℕ) (cs : List ℕ) : DependencyGraph K V :=
  cs.foldl (fun g c => g.cut i c) g

@[simp] lemma nodes_cutAll : (g.cutAll i cs).nodes = g.nodes := by
  induction cs generalizing g with
  | nil => rfl
  | cons c cs ih => exact ih (g := g.cut i c)

lemma mem_childrenOf_cutAll : y ∈ (g.cutAll i cs).childrenOf x ↔ y ∈ g.childrenOf x ∧ ¬(x = i ∧ y ∈ cs) := by
  induction cs generalizing g with
  | nil => simp [cutAll]
  | cons c cs ih =>
    have h := ih (g := g.cut i c)
    rw [mem_childrenOf_cut] at h
    simp only [List.mem_cons]
    exact h.trans (by grind)

lemma mem_parentsOf_cutAll : x ∈ (g.cutAll i cs).parentsOf y ↔ x ∈ g.parentsOf y ∧ ¬(x = i ∧ y ∈ cs) := by
  induction cs generalizing g with
  | nil => simp [cutAll]
  | cons c cs ih =>
    have h := ih (g := g.cut i c)
    rw [mem_parentsOf_cut] at h
    simp only [List.mem_cons]
    exact h.trans (by grind)

lemma Coherent.cutAll (hc : g.Coherent) : (g.cutAll i cs).Coherent := by
  induction cs generalizing g with
  | nil => exact hc
  | cons c cs ih => exact ih hc.cut

lemma mem_childrenOf_cut_of_nodup {c : ℕ} (hcs : (c::cs).Nodup)
    (h : ∀ d ∈ c::cs,d ∈ g.childrenOf i) : ∀ d ∈ cs,d ∈ (g.cut i c).childrenOf i := by
  intro d hd
  have hne : d ≠ c := fun hdc => (List.nodup_cons.mp hcs).1 (hdc ▸ hd)
  exact mem_childrenOf_cut.mpr ⟨h d (List.mem_cons_of_mem _ hd),fun hdc => hne hdc.2⟩

lemma removeEdges_eq (hc : g.Coherent) (hcs : cs.Nodup) (h : ∀ c ∈ cs,c ∈ g.childrenOf i) :
    removeEdges i cs g = .ok () (g.cutAll i cs) := by
  induction cs generalizing g with
  | nil => rfl
  | cons c cs ih =>
    have hedge := removeEdge_eq hc (h c List.mem_cons_self)
    have hrest := mem_childrenOf_cut_of_nodup hcs h
    rw [removeEdges,bind_of_ok hedge]
    exact ih hc.cut (List.nodup_cons.mp hcs).2 hrest

def orphan (g : DependencyGraph K V) (i : ℕ) : Bool :=
  match g.nodes[i]? with
  | some (.data _ _) => decide (g.parentsOf i = ∅)
  | _ => false

lemma isOrphaned_eq (hc : g.Coherent) {node : Node K V} (h : g.nodes[i]? = some node) :
    isOrphaned node g = .ok (g.orphan i) g := by
  cases node with
  | root | zombie => simp [isOrphaned,orphan,h]
  | data k v =>
    have hindex := hc.indexed i k v h
    have horphan : g.orphan i = decide (g.parentsOf i = ∅) := by simp [orphan,h]
    rw [horphan]
    cases hp : g.parents.lookup i with
    | none =>
      have hparents : g.parentsOf i = ∅ := by simp [parentsOf,hp]
      simp [isOrphaned,hindex,hp,hparents]
    | some vs =>
      have hparents : g.parentsOf i = vs := by simp [parentsOf,hp]
      simp [isOrphaned,hindex,hp,hparents]

lemma orphan_cutAll_of_notMem {c : ℕ} (h : c ∉ cs) : (g.cutAll i cs).orphan c = g.orphan c := by
  have hparents : (g.cutAll i cs).parentsOf c = g.parentsOf c := by
    ext x
    rw [mem_parentsOf_cutAll]
    exact and_iff_left fun hx => h hx.2
  rw [orphan,orphan,nodes_cutAll,hparents]

lemma releaseChildren_eq (hc : g.Coherent) (hcs : cs.Nodup) (h : ∀ c ∈ cs,c ∈ g.childrenOf i) (next : List ℕ) :
    releaseChildren i cs next g = .ok ((cs.filter (g.cutAll i cs).orphan).reverse++next) (g.cutAll i cs) := by
  induction cs generalizing g next with
  | nil => rfl
  | cons c cs ih =>
    have hedge := removeEdge_eq hc (h c List.mem_cons_self)
    have hrest := mem_childrenOf_cut_of_nodup hcs h
    obtain ⟨hnot,hcs⟩ := List.nodup_cons.mp hcs
    have hlen : c < (g.cut i c).nodes.length := (hc.inside i c (h c List.mem_cons_self)).2
    have horphan : (g.cutAll i (c::cs)).orphan c = (g.cut i c).orphan c :=
      orphan_cutAll_of_notMem (g := g.cut i c) hnot
    have hnode := isOrphaned_eq hc.cut (i := c) (List.getElem?_eq_getElem hlen)
    simp only [releaseChildren,bind_of_ok hedge,get_bind,List.getElem?_eq_getElem hlen,bind_of_ok hnode]
    rw [List.filter_cons,horphan]
    have hcut : g.cutAll i (c::cs) = (g.cut i c).cutAll i cs := rfl
    cases (g.cut i c).orphan c with
    | true => simpa [hcut] using ih hc.cut hcs hrest (c::next)
    | false => simpa [hcut] using ih hc.cut hcs hrest next

def bury (g : DependencyGraph K V) (i : ℕ) : DependencyGraph K V := {g with
  nodes := g.nodes.set i .zombie
  children := g.children.insert i (g.childrenOf i)}

@[simp] lemma childrenOf_bury : (g.bury i).childrenOf x = g.childrenOf x := by
  by_cases hx : x = i
  · subst hx
    simp [childrenOf,bury]
  · simp [childrenOf,bury,hx]

@[simp] lemma parentsOf_bury : (g.bury i).parentsOf x = g.parentsOf x := rfl

lemma Coherent.bury (hc : g.Coherent) : (g.bury i).Coherent where
  mirrored x y := by rw [childrenOf_bury,parentsOf_bury,hc.mirrored]
  indexed x k v h := by
    by_cases hx : i = x
    · subst hx
      simp [DependencyGraph.bury,List.getElem?_set_self'] at h
    · exact hc.indexed x k v (by simpa [DependencyGraph.bury,List.getElem?_set_ne hx] using h)
  inside x y h := by
    rw [childrenOf_bury] at h
    simpa [DependencyGraph.bury] using hc.inside x y h

def detach (g : DependencyGraph K V) (order : Traversal) (i : ℕ) : DependencyGraph K V :=
  (g.bury i).cutAll i (order.list i (g.childrenOf i))

def valueAt (g : DependencyGraph K V) (i : ℕ) : Option V :=
  match g.nodes[i]? with
  | some (.data _ value) => some value
  | _ => none

lemma remove_bind {A : Type} (h : i < g.nodes.length) (order : Traversal) (f : Option V → List ℕ → Call K V A) :
    (do let value ← remove i; let children ← childIndices order i; f value children) g =
      f (g.valueAt i) (order.list i (g.childrenOf i)) (g.bury i) := by
  have hremove : remove i g = .ok (g.valueAt i) {g with nodes := g.nodes.set i .zombie} := by
    simp only [remove,get_bind,valueAt,List.getElem?_eq_getElem h,modify_bind]
    cases g.nodes[i] <;> rfl
  rw [bind_of_ok hremove]
  rfl

structure Without (base : DependencyGraph K V) (gone : Finset ℕ) (g : DependencyGraph K V) : Prop where
  coherent : g.Coherent
  length : g.nodes.length = base.nodes.length
  node : ∀ i,i ∉ gone → g.nodes[i]? = base.nodes[i]?
  zombie : ∀ i k v,i ∈ gone → g.nodes[i]? ≠ some (.data k v)
  edge : ∀ i j,j ∈ g.childrenOf i ↔ j ∈ base.childrenOf i ∧ i ∉ gone

variable {base : DependencyGraph K V} {gone : Finset ℕ} {order : Traversal}

lemma Coherent.without (hc : base.Coherent) : Without base ∅ base where
  coherent := hc
  length := rfl
  node _ _ := rfl
  zombie i _ _ h := absurd h (notMem_empty i)
  edge i j := by simp

lemma Without.mem_parentsOf (h : Without base gone g) : i ∈ g.parentsOf j ↔ j ∈ base.childrenOf i ∧ i ∉ gone := by
  rw [← h.coherent.mirrored,h.edge]

lemma Without.detach (h : Without base gone g) : Without base (insert i gone) (g.detach order i) where
  coherent := h.coherent.bury.cutAll
  length := by simpa [DependencyGraph.detach,DependencyGraph.bury] using h.length
  node x hx := by
    obtain ⟨hxi,hx⟩ := not_or.mp (mt mem_insert.mpr hx)
    rw [DependencyGraph.detach,nodes_cutAll,← h.node x hx]
    exact List.getElem?_set_ne (Ne.symm hxi)
  zombie x k v hx := by
    rw [DependencyGraph.detach,nodes_cutAll]
    by_cases hxi : i = x
    · subst hxi
      simp [DependencyGraph.bury,List.getElem?_set_self']
    · have hgone : x ∈ gone := (mem_insert.mp hx).resolve_left (Ne.symm hxi)
      simpa [DependencyGraph.bury,List.getElem?_set_ne hxi] using h.zombie x k v hgone
  edge x y := by
    rw [DependencyGraph.detach,mem_childrenOf_cutAll,childrenOf_bury,order.mem,mem_insert,h.edge]
    by_cases hx : x = i
    · subst hx
      simp [h.edge]
    · simp [hx]

lemma orphan_iff : g.orphan i = true ↔ (∃ k v,g.nodes[i]? = some (.data k v)) ∧ g.parentsOf i = ∅ := by
  unfold orphan
  cases hn : g.nodes[i]? with
  | none => simp
  | some node => cases node <;> simp

lemma findOrphan_eq (hc : g.Coherent) {l : List (Node K V×ℕ)} (h : ∀ e ∈ l,g.nodes[e.2]? = some e.1) :
    findOrphan l g = .ok ((l.map Prod.snd).find? g.orphan) g := by
  induction l with
  | nil => rfl
  | cons e l ih =>
    obtain ⟨node,index⟩ := e
    have hnode := isOrphaned_eq hc (h (node,index) List.mem_cons_self)
    rw [findOrphan,bind_of_ok hnode,List.map_cons,List.find?_cons]
    cases g.orphan index with
    | true => rfl
    | false => exact ih (List.forall_mem_cons.mp h).2

lemma findOrphan_zipIdx (hc : g.Coherent) :
    findOrphan g.nodes.zipIdx g = .ok ((List.range g.nodes.length).find? g.orphan) g := by
  have h : ∀ e ∈ g.nodes.zipIdx,g.nodes[e.2]? = some e.1 := by
    intro e he
    simpa using List.mem_zipIdx_iff_getElem?.mp he
  rw [findOrphan_eq hc h,List.zipIdx_map_snd,List.range_eq_range']

structure Built (base : DependencyGraph K V) : Prop where
  coherent : base.Coherent
  root : base.nodes[0]? = some .root
  data : ∀ i,i ≠ 0 → i < base.nodes.length → ∃ k v,base.nodes[i]? = some (.data k v)
  source : base.parentsOf 0 = ∅

def Reaches (base : DependencyGraph K V) (i : ℕ) : Prop :=
  ReflTransGen (fun x y => y ∈ base.childrenOf x) 0 i

lemma Built.not_reaches_of_orphan (hb : base.Built) (h : Without base gone g)
    (hgone : ∀ x ∈ gone,¬base.Reaches x) (ho : g.orphan i = true) : ¬base.Reaches i := by
  intro hr
  obtain ⟨⟨k,v,hnode⟩,hparents⟩ := orphan_iff.mp ho
  cases hr with
  | refl =>
    have hzero : 0 ∉ gone := fun h0 => hgone 0 h0 .refl
    rw [h.node 0 hzero,hb.root] at hnode
    cases hnode
  | @tail p _ hp hedge =>
    have hmem : p ∈ g.parentsOf i := h.mem_parentsOf.mpr ⟨hedge,fun hg => hgone p hg hp⟩
    rw [hparents] at hmem
    exact notMem_empty p hmem

lemma Without.notMem_of_orphan (h : Without base gone g) (ho : g.orphan i = true) : i ∉ gone := by
  intro hi
  obtain ⟨⟨k,v,hnode⟩,-⟩ := orphan_iff.mp ho
  exact h.zombie i k v hi hnode

lemma Built.pruneOrphans (hb : base.Built) (order : Traversal) (fuel : ℕ) (h : Without base gone g)
    (hgone : ∀ x ∈ gone,¬base.Reaches x) (hinside : ∀ x ∈ gone,x < base.nodes.length)
    (hfuel : base.nodes.length < fuel+gone.card) :
    ∃ gone' g',pruneOrphans order fuel g = .ok () g' ∧ Without base gone' g' ∧
      (∀ x ∈ gone',¬base.Reaches x) ∧ ∀ x,g'.orphan x = false := by
  induction fuel generalizing gone g with
  | zero =>
    have hsub : gone ⊆ range base.nodes.length := fun x hx => mem_range.mpr (hinside x hx)
    have hcard := card_le_card hsub
    rw [card_range] at hcard
    omega
  | succ fuel ih =>
    simp only [pruneOrphans,get_bind,bind_of_ok (findOrphan_zipIdx h.coherent)]
    cases hfind : (List.range g.nodes.length).find? g.orphan with
    | none =>
      refine ⟨gone,g,rfl,h,hgone,fun x => ?_⟩
      by_cases hx : x < g.nodes.length
      · simpa using List.find?_eq_none.mp hfind x (List.mem_range.mpr hx)
      · simp [orphan,List.getElem?_eq_none (Nat.le_of_not_lt hx)]
    | some index =>
      have ho : g.orphan index = true := List.find?_some hfind
      have hlt : index < g.nodes.length := List.mem_range.mp (List.mem_of_find?_eq_some hfind)
      have hnot := h.notMem_of_orphan ho
      have hedges : removeEdges index (order.list index (g.childrenOf index)) (g.bury index) =
          .ok () (g.detach order index) := by
        apply removeEdges_eq h.coherent.bury (order.nodup _ _)
        intro c hc
        rw [childrenOf_bury]
        exact (order.mem _ _ _).mp hc
      simp only [remove_bind hlt order]
      rw [bind_of_ok hedges]
      apply ih h.detach
      · exact (forall_mem_insert _ _ _).mpr ⟨hb.not_reaches_of_orphan h hgone ho,hgone⟩
      · exact (forall_mem_insert _ _ _).mpr ⟨h.length ▸ hlt,hinside⟩
      · rw [card_insert_of_notMem hnot]
        omega

/-- The order so far: `next` holds the nodes that wait for no other. -/
structure Progress (base : DependencyGraph K V) (pruned : Finset ℕ) (done next : List ℕ)
    (g : DependencyGraph K V) : Prop where
  without : Without base (pruned ∪ done.toFinset) g
  nextIff : ∀ i,i ∈ next ↔ (i < base.nodes.length ∧ i ∉ pruned ∧ i ∉ done) ∧ g.parentsOf i = ∅
  nextNodup : next.Nodup
  doneNodup : done.Nodup
  inside : ∀ i ∈ done,i < base.nodes.length ∧ i ∉ pruned
  settled : ∀ i ∈ done,g.parentsOf i = ∅
  order : done.Pairwise fun x y => x ∉ base.childrenOf y

variable {pruned : Finset ℕ} {done next : List ℕ}

lemma mem_parentsOf_detach : x ∈ (g.detach order i).parentsOf y ↔ x ∈ g.parentsOf y ∧ ¬(x = i ∧ y ∈ g.childrenOf i) := by
  rw [detach,mem_parentsOf_cutAll,parentsOf_bury,order.mem]

lemma parentsOf_detach_of_notMem (h : y ∉ g.childrenOf i) : (g.detach order i).parentsOf y = g.parentsOf y := by
  ext x
  rw [mem_parentsOf_detach]
  exact and_iff_left fun hx => h hx.2

lemma Progress.released (hb : base.Built) (h : Progress base pruned done (i::next) g) :
    j ∈ (order.list i (g.childrenOf i)).filter (g.detach order i).orphan ↔
      j ∈ g.childrenOf i ∧ (j < base.nodes.length ∧ j ∉ pruned ∧ j ∉ done++[i]) ∧
        (g.detach order i).parentsOf j = ∅ := by
  have hw : Without base (insert i (pruned ∪ done.toFinset)) (g.detach order i) := h.without.detach
  rw [List.mem_filter,order.mem,orphan_iff]
  refine and_congr_right fun hj => ?_
  constructor
  · rintro ⟨⟨k,v,hnode⟩,hparents⟩
    have hnot : j ∉ insert i (pruned ∪ done.toFinset) := fun hmem => hw.zombie j k v hmem hnode
    have hlen := (h.without.coherent.inside i j hj).2
    rw [h.without.length] at hlen
    simp only [mem_insert,mem_union,List.mem_toFinset] at hnot
    refine ⟨⟨hlen,?_,?_⟩,hparents⟩
    · grind
    · simp only [List.mem_append,List.mem_singleton]
      grind
  · rintro ⟨⟨hlen,hpruned,hdone⟩,hparents⟩
    have hnot : j ∉ insert i (pruned ∪ done.toFinset) := by
      simp only [List.mem_append,List.mem_singleton] at hdone
      simp only [mem_insert,mem_union,List.mem_toFinset]
      grind
    have hzero : j ≠ 0 := by
      rintro rfl
      have hbase := ((h.without.edge i 0).mp hj).1
      rw [hb.coherent.mirrored,hb.source] at hbase
      exact notMem_empty i hbase
    rw [hw.node j hnot]
    exact ⟨hb.data j hzero hlen,hparents⟩

lemma Progress.step (hb : base.Built) (h : Progress base pruned done (i::next) g) : Progress base pruned (done++[i])
      (((order.list i (g.childrenOf i)).filter (g.detach order i).orphan).reverse++next) (g.detach order i) := by
  obtain ⟨⟨hlen,hpruned,hdone⟩,hparents⟩ := (h.nextIff i).mp List.mem_cons_self
  have hchild : ∀ c ∈ g.childrenOf i,c ∉ i::next := by
    intro c hc hmem
    have hempty := ((h.nextIff c).mp hmem).2
    have hi := (h.without.coherent.mirrored i c).mp hc
    rw [hempty] at hi
    exact notMem_empty i hi
  obtain ⟨hinext,hnodup⟩ := List.nodup_cons.mp h.nextNodup
  constructor
  case without =>
    have hset : pruned ∪ (done++[i]).toFinset = insert i (pruned ∪ done.toFinset) := by
      ext x
      simp only [mem_union,List.mem_toFinset,List.mem_append,List.mem_singleton,mem_insert]
      grind
    rw [hset]
    exact h.without.detach
  case nextIff =>
    intro j
    rw [List.mem_append,List.mem_reverse,h.released hb]
    by_cases hj : j ∈ g.childrenOf i
    · have hnext : j ∉ next := fun hmem => hchild j hj (List.mem_cons_of_mem _ hmem)
      simp [hj,hnext]
    · have hold := h.nextIff j
      rw [parentsOf_detach_of_notMem hj]
      simp only [hj,false_and,false_or]
      constructor
      · intro hmem
        obtain ⟨⟨hjlen,hjpruned,hjdone⟩,hjparents⟩ := hold.mp (List.mem_cons_of_mem _ hmem)
        refine ⟨⟨hjlen,hjpruned,?_⟩,hjparents⟩
        have hne : j ≠ i := fun hji => hinext (hji ▸ hmem)
        simp [hjdone,hne]
      · rintro ⟨⟨hjlen,hjpruned,hjdone⟩,hjparents⟩
        simp only [List.mem_append,List.mem_singleton,not_or] at hjdone
        have hmem := hold.mpr ⟨⟨hjlen,hjpruned,hjdone.1⟩,hjparents⟩
        exact (List.mem_cons.mp hmem).resolve_left hjdone.2
  case nextNodup =>
    rw [List.nodup_append]
    refine ⟨List.nodup_reverse.mpr ((order.nodup _ _).filter _),hnodup,?_⟩
    rintro c hc d hd rfl
    rw [List.mem_reverse,h.released hb] at hc
    exact hchild c hc.1 (List.mem_cons_of_mem _ hd)
  case doneNodup =>
    rw [List.nodup_append]
    refine ⟨h.doneNodup,List.nodup_singleton i,?_⟩
    rintro c hc d hd rfl
    exact hdone (List.mem_singleton.mp hd ▸ hc)
  case inside =>
    exact List.forall_mem_append.mpr ⟨h.inside,List.forall_mem_singleton.mpr ⟨hlen,hpruned⟩⟩
  case settled =>
    have hold := List.forall_mem_append.mpr ⟨h.settled,List.forall_mem_singleton.mpr hparents⟩
    intro x hx
    ext y
    rw [mem_parentsOf_detach,hold x hx]
    simp
  case order =>
    rw [List.pairwise_append]
    refine ⟨h.order,List.pairwise_singleton _ _,?_⟩
    intro x hx y hy hedge
    rw [List.mem_singleton.mp hy] at hedge
    -- A node that was done before had no parent left.
    have hmem : i ∈ g.parentsOf x := by
      rw [h.without.mem_parentsOf]
      refine ⟨hedge,?_⟩
      simp [hpruned,hdone]
    rw [h.settled x hx] at hmem
    exact notMem_empty i hmem

lemma Progress.valueAt (h : Progress base pruned done (i::next) g) : g.valueAt i = base.valueAt i := by
  obtain ⟨⟨-,hpruned,hdone⟩,-⟩ := (h.nextIff i).mp List.mem_cons_self
  have hnot : i ∉ pruned ∪ done.toFinset := by simp [hpruned,hdone]
  rw [DependencyGraph.valueAt,DependencyGraph.valueAt,h.without.node i hnot]

lemma Built.resolveLoop (hb : base.Built) (order : Traversal) (fuel : ℕ)
    (h : Progress base pruned done next g) (hfuel : base.nodes.length < fuel+done.length) :
    ∃ done' g',DependencyGraph.resolveLoop order fuel (done.filterMap base.valueAt) next g =
      .ok (done'.filterMap base.valueAt) g' ∧ Progress base pruned done' [] g' := by
  induction fuel generalizing done next g with
  | zero =>
    have hsub : done.toFinset ⊆ range base.nodes.length := by
      intro x hx
      exact mem_range.mpr (h.inside x (List.mem_toFinset.mp hx)).1
    have hcard := card_le_card hsub
    rw [card_range,List.toFinset_card_of_nodup h.doneNodup] at hcard
    omega
  | succ fuel ih =>
    cases next with
    | nil => exact ⟨done,g,rfl,h⟩
    | cons i next =>
      have hlt : i < g.nodes.length := by
        rw [h.without.length]
        exact ((h.nextIff i).mp List.mem_cons_self).1.1
      have hrelease : releaseChildren i (order.list i (g.childrenOf i)) next (g.bury i) =
          .ok (((order.list i (g.childrenOf i)).filter (g.detach order i).orphan).reverse++next) (g.detach order i) := by
        apply releaseChildren_eq h.without.coherent.bury (order.nodup _ _)
        intro c hc
        rw [childrenOf_bury]
        exact (order.mem _ _ _).mp hc
      have hresult : done.filterMap base.valueAt++(g.valueAt i).toList = (done++[i]).filterMap base.valueAt := by
        rw [h.valueAt,List.filterMap_append]
        cases hv : base.valueAt i <;> simp [hv]
      simp only [DependencyGraph.resolveLoop,remove_bind hlt order]
      rw [bind_of_ok hrelease,hresult]
      apply ih (h.step hb)
      simp only [List.length_append,List.length_singleton]
      omega

lemma Built.parentsOf_ne_empty (hb : base.Built) (h : Without base pruned g) (ho : ∀ x,g.orphan x = false)
    (hi : i < base.nodes.length) (hnot : i ∉ pruned) (hne : i ≠ 0) : g.parentsOf i ≠ ∅ := by
  intro hempty
  have horphan : g.orphan i = true := by
    rw [orphan_iff,h.node i hnot]
    exact ⟨hb.data i hne hi,hempty⟩
  rw [ho i] at horphan
  cases horphan

lemma Built.reaches_of_pruned (hb : base.Built) (hwf : WellFounded fun x y => y ∈ base.childrenOf x)
    (h : Without base pruned g) (ho : ∀ x,g.orphan x = false) (hi : i < base.nodes.length)
    (hnot : i ∉ pruned) : base.Reaches i := by
  induction i using hwf.induction with
  | _ i ih =>
    by_cases hzero : i = 0
    · subst hzero
      exact .refl
    · obtain ⟨p,hp⟩ := nonempty_of_ne_empty (hb.parentsOf_ne_empty h ho hi hnot hzero)
      obtain ⟨hedge,hp⟩ := h.mem_parentsOf.mp hp
      exact (ih p hedge (hb.coherent.inside p i hedge).1 hp).tail hedge

lemma Built.reaches_lt (hb : base.Built) (h : base.Reaches i) : i < base.nodes.length := by
  cases h with
  | refl => exact (List.getElem?_eq_some_iff.mp hb.root).1
  | tail _ hedge => exact (hb.coherent.inside _ i hedge).2

lemma Built.progress (hb : base.Built) (h : Without base pruned g) (ho : ∀ x,g.orphan x = false)
    (hpruned : ∀ x ∈ pruned,¬base.Reaches x) : Progress base pruned [] [0] g := by
  have hzero : 0 ∉ pruned := fun hmem => hpruned 0 hmem .refl
  constructor
  case without => simpa using h
  case nextIff =>
    intro i
    rw [List.mem_singleton]
    constructor
    · rintro rfl
      refine ⟨⟨hb.reaches_lt .refl,hzero,List.not_mem_nil⟩,?_⟩
      ext p
      rw [h.mem_parentsOf,hb.coherent.mirrored,hb.source]
      simp
    · rintro ⟨⟨hlen,hnot,-⟩,hempty⟩
      by_contra hne
      exact hb.parentsOf_ne_empty h ho hlen hnot hne hempty
  case nextNodup => exact List.nodup_singleton 0
  case doneNodup => exact List.nodup_nil
  case inside => simp
  case settled => simp
  case order => exact List.Pairwise.nil

lemma Progress.mem_done (hwf : WellFounded fun x y => y ∈ base.childrenOf x) (hb : base.Built)
    (h : Progress base pruned done [] g) (hi : i < base.nodes.length) (hnot : i ∉ pruned) : i ∈ done := by
  induction i using hwf.induction with
  | _ i ih =>
    by_contra hdone
    have hparents : g.parentsOf i ≠ ∅ := by
      intro hempty
      exact List.not_mem_nil ((h.nextIff i).mpr ⟨⟨hi,hnot,hdone⟩,hempty⟩)
    obtain ⟨p,hp⟩ := nonempty_of_ne_empty hparents
    obtain ⟨hedge,hp⟩ := h.without.mem_parentsOf.mp hp
    simp only [mem_union,List.mem_toFinset,not_or] at hp
    exact hp.2 (ih p hedge (hb.coherent.inside p i hedge).1 hp.1)

lemma isEmpty_of_forall (hc : g.Coherent) (h : ∀ x y,y ∉ g.childrenOf x) : g.isEmpty = true := by
  have hempty : ∀ {m : AList fun _ : ℕ => Finset ℕ},(∀ i x,x ∉ (m.lookup i).getD ∅) → ∀ e ∈ m.entries,e.2 = ∅ := by
    rintro m hm ⟨i,s⟩ he
    have hs := eq_empty_of_forall_notMem (hm i)
    rwa [AList.mem_lookup_iff.mpr he] at hs
  simp only [isEmpty,Bool.and_eq_true,List.all_eq_true,decide_eq_true_eq]
  exact ⟨hempty h,hempty fun y x hx => h x y ((hc.mirrored x y).mpr hx)⟩

lemma Built.resolve (hb : base.Built) (order : Traversal) (hwf : WellFounded fun x y => y ∈ base.childrenOf x) :
    ∃ (done : List ℕ) (g' : DependencyGraph K V),
      DependencyGraph.resolve order base = .ok (done.filterMap base.valueAt) g' ∧ done.Nodup ∧
        (∀ i,i ∈ done ↔ base.Reaches i) ∧ done.Pairwise fun x y => x ∉ base.childrenOf y := by
  have hprune := hb.pruneOrphans order (base.nodes.length+1) hb.coherent.without (by simp) (by simp) (by simp)
  obtain ⟨pruned,g,hg,hw,hpruned,ho⟩ := hprune
  obtain ⟨done,g',hg',hp⟩ := hb.resolveLoop order (base.nodes.length+1) (hb.progress hw ho hpruned) (by simp)
  have hmem : ∀ i,i ∈ done ↔ base.Reaches i := by
    intro i
    constructor
    · intro hi
      obtain ⟨hlen,hnot⟩ := hp.inside i hi
      exact hb.reaches_of_pruned hwf hw ho hlen hnot
    · intro hi
      exact hp.mem_done hwf hb (hb.reaches_lt hi) fun hmem => hpruned i hmem hi
  have hempty : g'.isEmpty = true := by
    apply isEmpty_of_forall hp.without.coherent
    intro x y hy
    obtain ⟨hedge,hx⟩ := (hp.without.edge x y).mp hy
    simp only [mem_union,List.mem_toFinset,not_or] at hx
    exact hx.2 (hp.mem_done hwf hb (hb.coherent.inside x y hedge).1 hx.1)
  refine ⟨done,g',?_,hp.doneNodup,hmem,hp.order⟩
  rw [DependencyGraph.resolve,get_bind,bind_of_ok hg]
  have hloop : DependencyGraph.resolveLoop order (base.nodes.length+1) [] [rootIndex] g =
      .ok (done.filterMap base.valueAt) g' := hg'
  rw [bind_of_ok hloop,get_bind,hempty]
  rfl

end Fuchsia.Bind.DependencyGraph
