import Mathlib.Data.List.AList
import Mathlib.Data.List.DropRight
import Fuchsia.Lib.Fallible

/-! `IdMap` (`data_structures/id_map.rs`): values under densely packed keys. The doubly
linked list of free entries is the list of their keys. -/
namespace Fuchsia.Netstack

open Option List

structure IdMap (T : Type) where
  data : List (Option T)
  free : List ℕ
  deriving DecidableEq

namespace IdMap

variable {T : Type}

def new : IdMap T := ⟨[],[]⟩

def get (m : IdMap T) (key : ℕ) : Option T := m.data[key]?.join

def push (m : IdMap T) (item : T) : ℕ × IdMap T :=
  match m.free with
  | key::rest => (key,⟨m.data.set key (some item),rest⟩)
  | [] => (m.data.length,⟨m.data++[some item],[]⟩)

/-- The free entries at the end are dropped. -/
def compress (m : IdMap T) : IdMap T := ⟨m.data.rdropWhile isNone,
    m.free.filter (· < (m.data.rdropWhile isNone).length)⟩

def remove (m : IdMap T) (key : ℕ) : Option (T × IdMap T) :=
  (m.get key).map fun item => (item,compress ⟨m.data.set key none,key::m.free⟩)

structure Ok (m : IdMap T) : Prop where
  nodup : m.free.Nodup
  mem_free : ∀ key,key ∈ m.free ↔ m.data[key]? = some none
  packed : m.data.rdropWhile isNone = m.data

variable {m : IdMap T}

lemma new_ok : (new : IdMap T).Ok := ⟨nodup_nil,by simp [new],rfl⟩

lemma rdropWhile_append_replicate (data : List (Option T)) : ∃ n,data = data.rdropWhile isNone++replicate n none := by
  induction data using reverseRecOn with
  | nil => exact ⟨0,rfl⟩
  | append_singleton data x ih =>
    cases x with
    | none =>
      obtain ⟨n,hn⟩ := ih
      refine ⟨n+1,?_⟩
      rw [rdropWhile_concat_pos _ _ _ rfl,replicate_succ',← append_assoc,← hn]
    | some x => exact ⟨0,by rw [rdropWhile_concat_neg _ _ _ (by simp)]; simp⟩

lemma get_compress (m : IdMap T) (j : ℕ) : (compress m).get j = m.get j := by
  obtain ⟨n,hn⟩ := rdropWhile_append_replicate m.data
  rw [get,get,compress]
  conv_rhs => rw [hn]
  rw [getElem?_append]
  split_ifs with h
  · rfl
  · rw [getElem?_eq_none (not_lt.mp h),getElem?_replicate]
    split_ifs <;> rfl

lemma compress_ok (hnodup : m.free.Nodup) (hfree : ∀ key,key ∈ m.free ↔ m.data[key]? = some none) : (compress m).Ok := by
  refine ⟨hnodup.filter _,fun key => ?_,rdropWhile_idempotent _ _⟩
  obtain ⟨n,hn⟩ := rdropWhile_append_replicate m.data
  simp only [compress,mem_filter,decide_eq_true_eq,hfree]
  set data := m.data.rdropWhile isNone
  rw [hn]
  constructor
  · rintro ⟨hnone,hlt⟩
    rwa [getElem?_append_left hlt] at hnone
  · intro hnone
    have hlt := (List.getElem?_eq_some_iff.mp hnone).1
    exact ⟨by rwa [getElem?_append_left hlt],hlt⟩

lemma push_fst_free (h : m.Ok) (item : T) : m.get (m.push item).1 = none := by
  rw [push]
  split
  · rename_i key rest hfree
    have hmem := (h.mem_free key).mp (by simp [hfree])
    rw [get,hmem]
    rfl
  · rw [get,getElem?_eq_none le_rfl]
    rfl

lemma get_push (h : m.Ok) (item : T) (j : ℕ) :
    (m.push item).2.get j = if j = (m.push item).1 then some item else m.get j := by
  rw [push]
  split
  · rename_i key rest hfree
    have hlt : key < m.data.length :=
      (List.getElem?_eq_some_iff.mp ((h.mem_free key).mp (by simp [hfree]))).1
    simp only [get,getElem?_set]
    split_ifs with hkey hj hj
    · rfl
    · exact absurd hkey.symm hj
    · exact absurd hj.symm hkey
    · rfl
  · simp only [get]
    split_ifs with hj
    · rw [hj,getElem?_append_right le_rfl,Nat.sub_self]
      rfl
    · obtain hlt | hge := lt_or_ge j m.data.length
      · rw [getElem?_append_left hlt]
      · rw [getElem?_eq_none hge,getElem?_eq_none (by simp; omega)]

variable {key : ℕ} {item : T}

lemma getLast_set_ne {data : List (Option T)} (h : data.rdropWhile isNone = data) :
    (data.set key (some item)).rdropWhile isNone = data.set key (some item) := by
  rw [rdropWhile_eq_self_iff] at h ⊢
  intro hne
  have hdata : data ≠ [] := by
    rintro rfl
    exact hne rfl
  have hlast := h hdata
  rw [getLast_eq_getElem] at hlast ⊢
  rw [getElem_set]
  split_ifs
  · simp
  · simpa using hlast

lemma push_ok (h : m.Ok) (item : T) : (m.push item).2.Ok := by
  rw [push]
  split
  · rename_i key rest hfree
    have hnodup := h.nodup
    rw [hfree,nodup_cons] at hnodup
    refine ⟨hnodup.2,fun j => ?_,getLast_set_ne h.packed⟩
    have hmem := h.mem_free j
    rw [hfree,mem_cons] at hmem
    simp only [getElem?_set]
    by_cases hj : key = j
    · subst hj
      simp only [hnodup.1,false_iff,if_true]
      split_ifs <;> simp
    · rw [if_neg hj,← hmem]
      simp [Ne.symm hj]
  · rename_i hfree
    refine ⟨nodup_nil,fun j => ?_,rdropWhile_concat_neg _ _ _ (by simp)⟩
    have hmem := h.mem_free j
    rw [hfree] at hmem
    simp only [not_mem_nil,false_iff] at hmem ⊢
    rw [getElem?_append]
    split_ifs with hlt
    · exact hmem
    · rw [getElem?_singleton]
      split_ifs <;> simp

lemma remove_push (h : m.Ok) (item : T) : (m.push item).2.remove (m.push item).1 = some (item,m) := by
  have hget : (m.push item).2.get (m.push item).1 = some item := by rw [get_push h,if_pos rfl]
  rw [remove,hget,map_some]
  have hlt : ∀ key ∈ m.free,key < m.data.length := fun key hkey =>
    (List.getElem?_eq_some_iff.mp ((h.mem_free key).mp hkey)).1
  have hfilter : m.free.filter (· < m.data.length) = m.free :=
    filter_eq_self.mpr fun key hkey => decide_eq_true (hlt key hkey)
  have hcompress : compress ⟨(m.push item).2.data.set (m.push item).1 none,
      (m.push item).1::(m.push item).2.free⟩ = m := by
    rw [push]
    split
    · rename_i key rest hfree
      have hnone := (h.mem_free key).mp (by simp [hfree])
      have hset : m.data.set key none = m.data := by
        refine ext_getElem? fun j => ?_
        rw [getElem?_set]
        split_ifs with hj hin
        · rw [← hj,hnone]
        · rw [← hj,getElem?_eq_none (not_lt.mp hin)]
        · rfl
      simp only [compress,set_set,hset,h.packed,← hfree,hfilter]
    · rename_i hfree
      have hset : (m.data++[some item]).set m.data.length none = m.data++[none] := by
        rw [set_append_right _ _ le_rfl,Nat.sub_self]
        rfl
      have hdrop : (m.data++[none]).rdropWhile isNone = m.data := by
        rw [rdropWhile_concat_pos isNone m.data none rfl,h.packed]
      simp only [compress,hset,hdrop]
      rw [filter_cons_of_neg (by simp),filter_nil,← hfree]
  rw [hcompress]

lemma get_remove (hget : m.get key = some item) :
    ∃ m',m.remove key = some (item,m') ∧ ∀ j,m'.get j = if j = key then none else m.get j := by
  refine ⟨compress ⟨m.data.set key none,key::m.free⟩,by rw [remove,hget]; rfl,fun j => ?_⟩
  rw [get_compress]
  simp only [get,getElem?_set]
  by_cases hj : j = key
  · rw [if_pos hj.symm,if_pos hj]
    split_ifs <;> rfl
  · rw [if_neg (Ne.symm hj),if_neg hj]

lemma remove_ok (h : m.Ok) {m' : IdMap T} (hremove : m.remove key = some (item,m')) : m'.Ok := by
  rw [remove,map_eq_some_iff] at hremove
  obtain ⟨item',hget,heq⟩ := hremove
  cases heq
  have hdata : m.data[key]? = some (some item) := join_eq_some_iff.mp hget
  have hlt := (List.getElem?_eq_some_iff.mp hdata).1
  refine compress_ok ?_ fun j => ?_
  · refine nodup_cons.mpr ⟨fun hmem => ?_,h.nodup⟩
    rw [h.mem_free,hdata] at hmem
    cases hmem
  · rw [mem_cons,h.mem_free,getElem?_set]
    by_cases hj : key = j
    · subst hj
      simp [hlt]
    · simp [hj,Ne.symm hj]

end IdMap

/-! `ConnSocketMap` and `ListenerSocketMap` (`socket.rs`): maps between sockets and their
addresses in both directions. -/

open Fallible AList IdMap

/-- A failed assertion, `unwrap` or `expect`. -/
inductive Panic
  | panic
  deriving DecidableEq,Repr

/-- The `HashMap` from addresses to identifiers. -/
abbrev AddrIndex (A : Type) := AList fun _ : A => ℕ

variable {A T : Type} [DecidableEq A] {addr : A}

namespace AddrIndex

/-- `assert_eq!(index.insert(addr, id), None)` -/
def insertNew (index : AddrIndex A) (addr : A) (id : ℕ) : Except Panic (AddrIndex A) := do
  require .panic (index.lookup addr = none)
  return index.insert addr id

/-- `assert_eq!(index.remove(addr), Some(id))` -/
def removeOld (index : AddrIndex A) (addr : A) (id : ℕ) : Except Panic (AddrIndex A) := do
  require .panic (index.lookup addr = some id)
  return index.erase addr

def Links (index : AddrIndex A) (addrs : T → List A) (ids : IdMap T) : Prop :=
  ∀ addr id,index.lookup addr = some id ↔ ∃ t,ids.get id = some t ∧ addr ∈ addrs t

lemma insertNew_of {index : AddrIndex A} (h : index.lookup addr = none) (id : ℕ) :
    index.insertNew addr id = .ok (index.insert addr id) := by rw [insertNew,require_of h,ok_bind,pure_eq]

lemma removeOld_of {index : AddrIndex A} {id : ℕ}
    (h : index.lookup addr = some id) : index.removeOld addr id = .ok (index.erase addr) := by
  rw [removeOld,require_of h,ok_bind,pure_eq]

lemma erase_insert {index : AddrIndex A} (h : index.lookup addr = none) (id : ℕ) :
    (index.insert addr id).erase addr = index := by
  have hmem : addr ∉ index := lookup_eq_none.mp h
  refine ext ?_
  change List.kerase addr (index.insert addr id).entries = index.entries
  rw [entries_insert_of_notMem hmem]
  exact List.kerase_cons_eq rfl

variable {index : AddrIndex A} {addrs : T → List A} {ids : IdMap T}

section

variable (h : Links index addrs ids)
include h

variable {t : T}

lemma Links.push (hok : ids.Ok) (haddrs : addrs t = [addr]) (hnew : index.lookup addr = none) :
    Links (index.insert addr (ids.push t).1) addrs (ids.push t).2 := by
  intro a id
  have hfree := push_fst_free hok t
  rw [get_push hok]
  by_cases ha : a = addr
  · subst ha
    rw [lookup_insert]
    constructor
    · intro hid
      obtain rfl := some.inj hid
      exact ⟨t,if_pos rfl,by simp [haddrs]⟩
    · rintro ⟨u,hu,hmem⟩
      split_ifs at hu with hid
      · rw [hid]
      · rw [(h a id).mpr ⟨u,hu,hmem⟩] at hnew
        cases hnew
  · rw [lookup_insert_ne ha,h a id]
    refine exists_congr fun u => and_congr_left fun hmem => ?_
    split_ifs with hid
    · constructor
      · intro hu
        rw [hid,hfree] at hu
        cases hu
      · intro hu
        cases hu
        rw [haddrs,List.mem_singleton] at hmem
        exact absurd hmem ha
    · rfl

lemma Links.remove {id : ℕ} (hget : ids.get id = some t) (haddrs : addrs t = [addr]) {ids' : IdMap T}
    (hids : ∀ j,ids'.get j = if j = id then none else ids.get j) : Links (index.erase addr) addrs ids' := by
  intro a j
  rw [hids]
  by_cases ha : a = addr
  · subst ha
    rw [lookup_erase]
    refine iff_of_false (by simp) ?_
    rintro ⟨u,hu,hmem⟩
    split_ifs at hu with hj
    have hlj := (h a j).mpr ⟨u,hu,hmem⟩
    rw [(h a id).mpr ⟨t,hget,by simp [haddrs]⟩] at hlj
    exact hj (some.inj hlj).symm
  · rw [lookup_erase_ne ha,h a j]
    refine exists_congr fun u => and_congr_left fun hmem => ?_
    split_ifs with hj
    · subst hj
      refine iff_of_false (fun hu => ?_) (by simp)
      rw [hget] at hu
      cases hu
      rw [haddrs,List.mem_singleton] at hmem
      exact ha hmem
    · rfl

end

end AddrIndex

structure ConnSocketMap (A : Type) where
  idToConn : IdMap A
  addrToId : AddrIndex A

structure ListenerSocketMap (A : Type) where
  listenerToAddrs : IdMap (List A)
  addrToListener : AddrIndex A

namespace ConnSocketMap

def new : ConnSocketMap A := ⟨.new,∅⟩

def insert (m : ConnSocketMap A) (addr : A) : Except Panic (ℕ × ConnSocketMap A) := do
  let (id,idToConn) := m.idToConn.push addr
  let addrToId ← m.addrToId.insertNew addr id
  return (id,⟨idToConn,addrToId⟩)

def getIdByAddr (m : ConnSocketMap A) (addr : A) : Option ℕ := m.addrToId.lookup addr

def getConnById (m : ConnSocketMap A) (id : ℕ) : Option A := m.idToConn.get id

def iterAddrs (m : ConnSocketMap A) : List A := m.addrToId.keys

def removeById (m : ConnSocketMap A) (id : ℕ) : Except Panic (Option (A × ConnSocketMap A)) :=
  match m.idToConn.remove id with
  | none => .ok none
  | some (conn,idToConn) => do
    let addrToId ← m.addrToId.removeOld conn id
    return some (conn,⟨idToConn,addrToId⟩)

structure Ok (m : ConnSocketMap A) : Prop where
  ids : m.idToConn.Ok
  links : m.addrToId.Links (fun addr => [addr]) m.idToConn

variable {m : ConnSocketMap A}

lemma new_ok : (new : ConnSocketMap A).Ok :=
  ⟨IdMap.new_ok,fun addr id => by simp [new,IdMap.new,IdMap.get]⟩

variable {id : ℕ}

lemma Ok.getIdByAddr_eq_some (h : m.Ok) : m.getIdByAddr addr = some id ↔ m.getConnById id = some addr := by
  rw [getIdByAddr,h.links addr id]
  simp [getConnById]

lemma Ok.mem_iterAddrs (h : m.Ok) : addr ∈ m.iterAddrs ↔ ∃ id,m.getConnById id = some addr := by
  rw [iterAddrs,← AList.mem_keys,← lookup_isSome,Option.isSome_iff_exists]
  exact exists_congr fun id => h.getIdByAddr_eq_some

structure Inserted (m : ConnSocketMap A) (addr : A) (id : ℕ) (m' : ConnSocketMap A) : Prop where
  ok : m'.Ok
  fresh : m.getConnById id = none
  get : ∀ j,m'.getConnById j = if j = id then some addr else m.getConnById j
  remove : m'.removeById id = .ok (some (addr,m))

lemma insert_of (h : m.Ok) (hnew : m.getIdByAddr addr = none) :
    ∃ id m',m.insert addr = .ok (id,m') ∧ Inserted m addr id m' := by
  refine ⟨_,⟨(m.idToConn.push addr).2,m.addrToId.insert addr (m.idToConn.push addr).1⟩,?_,
    ⟨push_ok h.ids addr,h.links.push h.ids rfl hnew⟩,push_fst_free h.ids addr,get_push h.ids addr,?_⟩
  · rw [insert]
    simp only [AddrIndex.insertNew_of hnew,ok_bind,pure_eq]
  · simp [removeById,remove_push h.ids,AddrIndex.removeOld_of (lookup_insert m.addrToId),ok_bind,pure_eq,
      AddrIndex.erase_insert hnew]

lemma removeById_none (hget : m.getConnById id = none) : m.removeById id = .ok none := by
  have hremove : m.idToConn.remove id = none := by
    rw [remove,show m.idToConn.get id = none from hget]
    rfl
  rw [removeById,hremove]

lemma removeById_of (h : m.Ok) (hget : m.getConnById id = some addr) :
    ∃ m',m.removeById id = .ok (some (addr,m')) ∧ m'.Ok ∧
      ∀ j,m'.getConnById j = if j = id then none else m.getConnById j := by
  obtain ⟨ids',hremove,hids⟩ := get_remove hget
  refine ⟨⟨ids',m.addrToId.erase addr⟩,?_,⟨remove_ok h.ids hremove,h.links.remove hget rfl hids⟩,hids⟩
  simp only [removeById,hremove,AddrIndex.removeOld_of (h.getIdByAddr_eq_some.mpr hget),ok_bind,pure_eq]

end ConnSocketMap

namespace ListenerSocketMap

def new : ListenerSocketMap A := ⟨.new,∅⟩

def insert (m : ListenerSocketMap A) (addrs : List A) :
    Except Panic (ℕ × ListenerSocketMap A) := do
  let (listener,listenerToAddrs) := m.listenerToAddrs.push addrs
  let addrToListener ← addrs.foldlM (fun index addr => index.insertNew addr listener)
    m.addrToListener
  return (listener,⟨listenerToAddrs,addrToListener⟩)

def getByAddr (m : ListenerSocketMap A) (addr : A) : Option ℕ := m.addrToListener.lookup addr

def getByListener (m : ListenerSocketMap A) (listener : ℕ) : Option (List A) :=
  m.listenerToAddrs.get listener

def iterAddrs (m : ListenerSocketMap A) : List A := m.addrToListener.keys

/-- The address of a listener that has one. -/
def address (m : ListenerSocketMap A) (listener : ℕ) : Option A :=
  (m.getByListener listener).bind List.head?

def removeByListener (m : ListenerSocketMap A) (listener : ℕ) :
    Except Panic (Option (List A × ListenerSocketMap A)) :=
  match m.listenerToAddrs.remove listener with
  | none => .ok none
  | some (addrs,listenerToAddrs) => do
    let addrToListener ← addrs.foldlM (fun index addr => index.removeOld addr listener)
      m.addrToListener
    return some (addrs,⟨listenerToAddrs,addrToListener⟩)

structure Ok (m : ListenerSocketMap A) : Prop where
  ids : m.listenerToAddrs.Ok
  single : ∀ listener addrs,m.getByListener listener = some addrs → ∃ addr,addrs = [addr]
  links : m.addrToListener.Links id m.listenerToAddrs

variable {m : ListenerSocketMap A}

lemma new_ok : (new : ListenerSocketMap A).Ok :=
  ⟨IdMap.new_ok,by simp [new,getByListener,IdMap.new,IdMap.get],fun addr id => by simp [new,IdMap.new,IdMap.get]⟩

variable {listener : ℕ}

lemma Ok.getByAddr_eq_some (h : m.Ok) : m.getByAddr addr = some listener ↔ m.getByListener listener = some [addr] := by
  rw [getByAddr,h.links addr listener]
  constructor
  · rintro ⟨addrs,hget,hmem⟩
    obtain ⟨a,rfl⟩ := h.single listener addrs hget
    rw [id_eq,List.mem_singleton] at hmem
    rwa [hmem]
  · intro hget
    exact ⟨[addr],hget,List.mem_singleton_self addr⟩

lemma Ok.address_eq (h : m.Ok) : m.address listener = some addr ↔ m.getByListener listener = some [addr] := by
  rw [address]
  cases hget : m.getByListener listener with
  | none => simp
  | some addrs =>
    obtain ⟨a,rfl⟩ := h.single listener addrs hget
    simp

lemma Ok.getByAddr_eq_none (h : m.Ok) : m.getByAddr addr = none ↔ ∀ listener,m.getByListener listener ≠ some [addr] := by
  simp only [eq_none_iff_forall_ne_some,ne_eq,h.getByAddr_eq_some]

lemma Ok.mem_iterAddrs (h : m.Ok) : addr ∈ m.iterAddrs ↔ ∃ listener,m.getByListener listener = some [addr] := by
  rw [iterAddrs,← AList.mem_keys,← lookup_isSome,Option.isSome_iff_exists]
  exact exists_congr fun listener => h.getByAddr_eq_some

lemma insert_of (h : m.Ok) (hnew : m.getByAddr addr = none) :
    ∃ listener m',m.insert [addr] = .ok (listener,m') ∧ m'.Ok ∧ m.getByListener listener = none ∧
      ∀ j,m'.getByListener j = if j = listener then some [addr] else m.getByListener j := by
  have hget := get_push h.ids [addr]
  refine ⟨_,⟨(m.listenerToAddrs.push [addr]).2,m.addrToListener.insert addr (m.listenerToAddrs.push [addr]).1⟩,?_,
    ⟨push_ok h.ids [addr],fun j addrs hj => ?_,h.links.push h.ids rfl hnew⟩,push_fst_free h.ids [addr],hget⟩
  · rw [insert]
    simp [AddrIndex.insertNew_of hnew,ok_bind,pure_eq]
  · rw [getByListener,hget] at hj
    split_ifs at hj
    · exact ⟨addr,(some.inj hj).symm⟩
    · exact h.single j addrs hj

lemma removeByListener_none (hget : m.getByListener listener = none) : m.removeByListener listener = .ok none := by
  have hremove : m.listenerToAddrs.remove listener = none := by
    rw [remove,show m.listenerToAddrs.get listener = none from hget]
    rfl
  rw [removeByListener,hremove]

lemma removeByListener_of (h : m.Ok) (hget : m.getByListener listener = some [addr]) :
    ∃ m',m.removeByListener listener = .ok (some ([addr],m')) ∧ m'.Ok ∧
      ∀ j,m'.getByListener j = if j = listener then none else m.getByListener j := by
  obtain ⟨ids',hremove,hids⟩ := get_remove hget
  refine ⟨⟨ids',m.addrToListener.erase addr⟩,?_,
    ⟨remove_ok h.ids hremove,fun j addrs hj => ?_,h.links.remove hget rfl hids⟩,hids⟩
  · simp [removeByListener,hremove,AddrIndex.removeOld_of (h.getByAddr_eq_some.mpr hget),ok_bind,pure_eq]
  · rw [getByListener,hids] at hj
    split_ifs at hj
    exact h.single j addrs hj

end ListenerSocketMap

end Fuchsia.Netstack
