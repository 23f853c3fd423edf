import Fuchsia.Lib.Segments
import Fuchsia.Starnix.MessageQueue
import Fuchsia.Lib.Transition

/-! What a read takes from the messages of the queue, and what a write adds to them. -/
namespace Fuchsia.Starnix

section

open Segments UserBufferIterator List Nat Message

namespace UserBuffer

def places (buffer : UserBuffer) : List ℕ := (range buffer.length).map fun i => buffer.address+i

variable (buffer : UserBuffer)

@[simp] lemma length_places : buffer.places.length = buffer.length := by simp [places]

lemma drop_places (n : ℕ) : buffer.places.drop n = places ⟨buffer.address+n,buffer.length-n⟩ := by
  refine ext_getElem (by simp) fun i h1 h2 => ?_
  simp [places]
  omega

lemma places_split {address n m : ℕ} : places ⟨address,n+m⟩ = places ⟨address,n⟩++places ⟨address+n,m⟩ := by
  simp only [places,range_add,map_append,map_map,append_cancel_left_eq]
  refine map_congr_left fun i _ => ?_
  simp only [Function.comp_apply]
  omega

end UserBuffer

namespace UserBufferIterator

variable {user user' : UserBufferIterator} {limit : ℕ} {buffer : UserBuffer}

def places (user : UserBufferIterator) : List ℕ :=
  (user.buffers.flatMap UserBuffer.places).drop user.offset

lemma length_places (user : UserBufferIterator) : user.places.length = user.remaining := by
  rw [places,remaining,length_drop,length_flatMap]
  congr 3
  funext buffer
  exact buffer.length_places

variable {buffers : List UserBuffer} {offset : ℕ}

lemma skip_places (fits : ∀ buffer ∈ buffers.head?,offset ≤ buffer.length) :
    (skip buffers offset fits).places = (buffers.flatMap UserBuffer.places).drop offset := by
  induction buffers generalizing offset with
  | nil => simp [skip,new,places]
  | cons buffer rest ih =>
    unfold skip
    split_ifs with hused
    · rw [ih,flatMap_cons,hused]
      simp
    · rfl

lemma skip_length (fits : ∀ buffer ∈ buffers.head?,offset ≤ buffer.length) :
    (skip buffers offset fits).buffers.length ≤ buffers.length := by
  induction buffers generalizing offset with
  | nil => exact le_rfl
  | cons buffer rest ih =>
    unfold skip
    split_ifs
    · exact (ih _).trans (le_succ _)
    · exact le_rfl

lemma next_eq_none (h : user.next limit = none) : limit = 0 ∨ user.places = [] := by
  obtain ⟨buffers,offset,fits⟩ := user
  cases buffers with
  | nil => exact .inr (by simp [places])
  | cons buffer rest =>
    simp only [next] at h
    split_ifs at h with hlimit
    exact .inl hlimit

lemma next_eq_some (h : user.next limit = some (buffer,user')) :
    buffer.length ≤ limit ∧ user.places = buffer.places++user'.places ∧
      (buffer.length = limit ∨ user'.buffers.length < user.buffers.length) := by
  obtain ⟨buffers,offset,fits⟩ := user
  cases buffers with
  | nil => cases h
  | cons b rest =>
    simp only [next] at h
    split_ifs at h with hlimit
    simp only [Option.some.injEq,Prod.mk.injEq] at h
    obtain ⟨rfl,rfl⟩ := h
    have hfits := fits b rfl
    refine ⟨min_le_left _ _,?_,?_⟩
    · rw [skip_places,places]
      generalize hc : min limit (b.length-offset) = c
      have hlen : b.length-offset = c+(b.length-(offset+c)) := by omega
      simp only [flatMap_cons]
      rw [drop_append_of_le_length (by simpa using hfits),
        drop_append_of_le_length (by rw [UserBuffer.length_places]; omega),
        ← append_assoc,UserBuffer.drop_places,UserBuffer.drop_places,hlen,UserBuffer.places_split,add_assoc]
    · by_cases hle : limit ≤ b.length-offset
      · exact .inl (min_eq_left hle)
      · right
        rw [skip,if_pos (by omega)]
        exact lt_succ_of_le (skip_length _)

end UserBufferIterator

lemma copied_append (copies copies' : List Copy) :
    copied (copies++copies') = copied copies++copied copies' := by simp [copied]

namespace MessageData

variable {user : UserBufferIterator} {bytes : List UInt8} {n fuel limit offset : ℕ}
  {memory : ℕ → UInt8}

lemma copyFromUserLoop_eq (hfuel : user.buffers.length ≤ fuel ∨ limit ≤ offset) :
    copyFromUserLoop memory limit fuel offset user = (user.places.take (limit-offset)).map memory := by
  induction fuel generalizing user offset with
  | zero =>
    obtain hnil | hdone := hfuel
    · simp [copyFromUserLoop,places,length_eq_zero_iff.mp (le_zero.mp hnil)]
    · simp [copyFromUserLoop,Nat.sub_eq_zero_of_le hdone]
  | succ fuel ih =>
    unfold copyFromUserLoop
    cases hnext : user.next (limit-offset) with
    | none =>
      obtain hlimit | hplaces := next_eq_none hnext
      · simp [hlimit]
      · simp [hplaces]
    | some next =>
      obtain ⟨buffer,user'⟩ := next
      obtain ⟨hle,hplaces,hprogress⟩ := next_eq_some hnext
      simp only [hplaces,take_append,UserBuffer.length_places,map_append]
      rw [take_of_length_le (by simpa using hle),UserBuffer.places,map_map]
      congr 1
      rw [Nat.sub_sub]
      exact ih (by omega)

lemma copyFromUser_eq (hlimit : limit ≤ user.remaining) :
    copyFromUser memory user limit = (user.places.take limit).map memory := by
  have hlength := user.length_places
  rw [copyFromUser,copyFromUserLoop_eq (.inl le_rfl)]
  simp
  omega

lemma copyToUserLoop_spec (hfuel : user.buffers.length ≤ fuel ∨ bytes.length ≤ n) (hn : n ≤ bytes.length) :
    (copyToUserLoop bytes fuel n user).1 = n+min (bytes.length-n) user.places.length ∧
    copied (copyToUserLoop bytes fuel n user).2.1 = (bytes.drop n).take user.places.length := by
  induction fuel generalizing user n with
  | zero =>
    obtain hnil | hdone := hfuel
    · simp [copyToUserLoop,places,length_eq_zero_iff.mp (le_zero.mp hnil),copied]
    · simp [copyToUserLoop,Nat.sub_eq_zero_of_le hdone,drop_eq_nil_of_le hdone,copied]
  | succ fuel ih =>
    unfold copyToUserLoop
    cases hnext : user.next (bytes.length-n) with
    | none =>
      obtain hlimit | hplaces := next_eq_none hnext
      · have heq : n = bytes.length := by omega
        simp [heq,copied]
      · simp [hplaces,copied]
    | some next =>
      obtain ⟨buffer,user'⟩ := next
      obtain ⟨hle,hplaces,hprogress⟩ := next_eq_some hnext
      have hrest := @ih user' (n+buffer.length) (by omega) (by omega)
      simp only [copied,flatMap_cons] at hrest ⊢
      rw [hrest.1,hrest.2,hplaces,length_append,UserBuffer.length_places]
      refine ⟨by omega,?_⟩
      rw [← drop_drop,take_add]

lemma copyToUser_spec (bytes : List UInt8) (user : UserBufferIterator) :
    (copyToUser bytes user).1 = min bytes.length user.remaining ∧
    copied (copyToUser bytes user).2.1 = bytes.take user.remaining := by
  have hspec := copyToUserLoop_spec (.inl (le_refl user.buffers.length)) (zero_le bytes.length)
  rw [user.length_places,Nat.zero_add,Nat.sub_zero,drop_zero] at hspec
  exact hspec

end MessageData

variable {A : Type}

namespace MessageQueue

open MessageData

variable {q q' : MessageQueue A} {user : UserBufferIterator} {address address' : Option SocketAddress}
  {message : Message A} {ms ms' : List (Message A)} {bytes : List UInt8} {item : Option A}

def Fits (message : Message A) (address : Option SocketAddress) : Prop :=
  message.address = none ∨ message.address = address

def Keeps (address address' : Option SocketAddress) : Prop := address = none ∨ address' = address

lemma Fits.keeps (h : Fits message address) (hk : Keeps address address') : Fits message address' := by
  obtain h | h := h
  · exact .inl h
  · obtain hk | hk := hk
    · exact .inl (h.trans hk)
    · exact .inr (h.trans hk.symm)

lemma Keeps.trans {address'' : Option SocketAddress} (h : Keeps address address')
    (h' : Keeps address' address'') : Keeps address address'' := by
  obtain h | h := h
  · exact .inl h
  · subst h
    exact h'

lemma updateAddress_eq_some (h : updateAddress message address = some address') :
    Fits message address' ∧ Keeps address address' := by
  unfold updateAddress at h
  split_ifs at h with hother hsome
  · cases h
    exact ⟨.inr rfl,.inl (by simpa using hsome)⟩
  · cases h
    refine ⟨?_,.inr rfl⟩
    by_cases hsome : message.address.isSome
    · exact .inr (not_not.mp fun hne => hother ⟨hsome,Ne.symm hne⟩)
    · exact .inl (by simpa using hsome)

/-- What a read takes from the messages: whole ones up to one with an item, and at the end a
part of one. -/
inductive Reads : Option SocketAddress → List (Message A) → List UInt8 → Option SocketAddress →
    Option A → List (Message A) → Prop
  | stop {address address' : Option SocketAddress} {ms : List (Message A)} :
      Keeps address address' → Reads address ms [] address' none ms
  | part {address address' : Option SocketAddress} {message : Message A} {ms : List (Message A)} {n : ℕ} :
      Fits message address' → Keeps address address' → n < message.len →
      Reads address (message::ms) (message.data.take n) address' none
        ({ message with data := message.data.drop n }::ms)
  | item {address address' : Option SocketAddress} {message : Message A} {ms : List (Message A)} {x : A} :
      Fits message address' → Keeps address address' → message.ancillaryData = some x →
      Reads address (message::ms) message.data address' (some x) ms
  | next {address address₁ address' : Option SocketAddress} {message : Message A}
      {ms ms' : List (Message A)} {bytes : List UInt8} {item : Option A} :
      Fits message address₁ → Keeps address address₁ → message.ancillaryData = none →
      Reads address₁ ms bytes address' item ms' →
      Reads address (message::ms) (message.data++bytes) address' item ms'

lemma Reads.keeps (h : Reads address ms bytes address' item ms') : Keeps address address' := by
  induction h with
  | stop hk | part _ hk | item _ hk => exact hk
  | next _ hk _ _ ih => exact hk.trans ih

lemma Reads.bytes_append (h : Reads address ms bytes address' item ms') : bytes++ms'.flatMap data = ms.flatMap data := by
  induction h with
  | stop | item => rfl
  | part => simp [← append_assoc]
  | next _ _ _ _ ih => simp [← ih]

structure Counted (q : MessageQueue A) : Prop where
  opened : q.closed = false
  length : q.length = total len q.messages

lemma Counted.readMessage (h : q.Counted) (hms : q.messages = message::ms) :
    q.readMessage = some (message,{ q with messages := ms,length := total len ms }) := by
  have hlength : q.length-message.len = total len ms := by
    rw [h.length,hms,total_cons]
    omega
  simp [MessageQueue.readMessage,h.opened,hms,hlength]

lemma Counted.writeFront (h : q.Counted) (message : Message A) : (q.writeFront message).Counted := by
  refine ⟨h.opened,?_⟩
  simp only [MessageQueue.writeFront,h.length,total_cons]
  omega

structure ReadsFrom (q : MessageQueue A) (count : ℕ) (address : Option SocketAddress) (q' : MessageQueue A)
    (info : MessageReadInfo A) (copies : List Copy) : Prop where
  reads : Reads address q.messages (copied copies) info.address info.ancillaryData q'.messages
  counted : q'.Counted
  capacity : q'.capacity = q.capacity
  bytesRead : info.bytesRead = count+(copied copies).length

variable {fuel count : ℕ} {faults : UserBuffer → Bool}

lemma readLoop_reads (h : q.Counted) (hfuel : q.messages.length ≤ fuel) : ∃ q' info copies,
    readLoop mapped fuel q user count address = (q',.ok (info,copies)) ∧
      ReadsFrom q count address q' info copies := by
  induction fuel generalizing q user count address with
  | zero => exact ⟨_,_,_,rfl,.stop (.inr rfl),h,rfl,rfl⟩
  | succ fuel ih =>
    unfold readLoop
    cases hms : q.messages with
    | nil =>
      have hnone : q.readMessage = none := by simp [readMessage,h.opened,hms]
      simp only [hnone]
      exact ⟨_,_,_,rfl,hms ▸ .stop (.inr rfl),h,rfl,rfl⟩
    | cons message ms =>
      have hrest : Counted { q with messages := ms,length := total len ms } := ⟨h.opened,rfl⟩
      simp only [h.readMessage hms]
      cases haddress : updateAddress message address with
      | none =>
        refine ⟨_,_,_,rfl,?_,hrest.writeFront message,rfl,rfl⟩
        rw [hms]
        exact .stop (.inr rfl)
      | some address1 =>
        obtain ⟨hfits,hkeeps⟩ := updateAddress_eq_some haddress
        obtain ⟨hread,hcopied⟩ := copyToUser_spec message.data user
        simp only [copyToUserFails_mapped,Bool.false_eq_true,if_false,splitOff]
        split_ifs with hpart
        · have hroom : user.remaining < message.data.length := by omega
          rw [hread,min_eq_right hroom.le]
          refine ⟨_,_,_,rfl,?_,hrest.writeFront _,rfl,?_⟩
          · rw [hms,hcopied]
            exact .part hfits hkeeps hroom
          · rw [hcopied,length_take,min_eq_left hroom.le]
            rfl
        · have hall : copied (copyToUser message.data user).2.1 = message.data := by
            rw [hcopied]
            exact take_of_length_le (by omega)
          have hcount : (copyToUser message.data user).1 = message.data.length := by omega
          cases hitem : message.ancillaryData with
          | some x =>
            refine ⟨_,_,_,rfl,?_,hrest,rfl,?_⟩
            · rw [hms,hall]
              exact .item hfits hkeeps hitem
            · rw [hcount,hall]
              rfl
          | none =>
            rw [hms] at hfuel
            obtain ⟨q',info,copies,hloop,hreads⟩ := @ih _ (copyToUser message.data user).2.2 address1
              (count+(copyToUser message.data user).1) hrest (le_of_succ_le_succ hfuel)
            simp only [hloop]
            refine ⟨_,_,_,rfl,?_,hreads.counted,hreads.capacity,?_⟩
            · rw [hms,copied_append,hall]
              exact .next hfits hkeeps hitem hreads.reads
            · refine hreads.bytesRead.trans ?_
              rw [copied_append,length_append,hall,hcount]
              exact add_assoc _ _ _

lemma peekLoop_eq (hopen : q.closed = false) (hfuel : q.messages.length ≤ fuel) :
    peekLoop faults q.messages user count address = (readLoop faults fuel q user count address).2 := by
  induction fuel generalizing q user count address with
  | zero =>
    have hnil : q.messages = [] := length_eq_zero_iff.mp (le_zero.mp hfuel)
    simp [hnil,peekLoop,readLoop]
  | succ fuel ih =>
    unfold readLoop
    cases hms : q.messages with
    | nil =>
      have hnone : q.readMessage = none := by simp [readMessage,hopen,hms]
      simp only [hnone,peekLoop]
    | cons message ms =>
      have hsome : q.readMessage = some (message,{ q with messages := ms,length := q.length-message.len }) := by
        simp [readMessage,hopen,hms]
      simp only [hsome,peekLoop]
      cases updateAddress message address with
      | none => rfl
      | some address1 =>
        by_cases hfault : copyToUserFails faults (copyToUser message.data user).2.1
        · simp only [if_pos hfault]
        simp only [if_neg hfault]
        by_cases hpart : (copyToUser message.data user).1 < message.len
        · have hsplit : splitOff message.data _ = some _ := if_pos hpart
          simp only [hsplit,if_pos hpart]
        · have hsplit : splitOff message.data _ = none := if_neg hpart
          simp only [hsplit,if_neg hpart]
          cases message.ancillaryData with
          | some x => rfl
          | none =>
            rw [hms] at hfuel
            have hrest := @ih { q with messages := ms,length := q.length-message.len }
              (copyToUser message.data user).2.2 address1 (count+(copyToUser message.data user).1) hopen
              (le_of_succ_le_succ hfuel)
            simp only [hrest]

end MessageQueue

end

/-! The message queue as a stream of bytes with ancillary items, along any sequence of calls. -/

open Segments Transition MessageData MessageQueue Message List Option Nat

variable {A : Type}

/-- A read as its caller sees it. -/
structure Served (A : Type) where
  info : MessageReadInfo A
  bytes : List UInt8
  deriving DecidableEq

def Served.len (r : Served A) : ℕ := r.bytes.length

/-- The queue, with the writes and the reads so far. -/
structure History (A : Type) where
  queue : MessageQueue A
  written : List (Message A)
  served : List (Served A)
  deriving DecidableEq

inductive Call (A : Type)
  | writeStream (memory : ℕ → UInt8) (buffers : List UserBuffer) (address : Option SocketAddress)
      (item : Option A)
  | readStream (buffers : List UserBuffer)
  | peekStream (buffers : List UserBuffer)
  | setCapacity (requestedCapacity : ℕ)

def userBytes (memory : ℕ → UInt8) (buffers : List UserBuffer) : List UInt8 :=
  (buffers.flatMap UserBuffer.places).map memory

def History.step (h : History A) : Call A → Option (History A)
  | .writeStream memory buffers address item =>
    match h.queue.writeStream mapped memory (.new buffers) address item with
    | (queue,_,.ok n) => some { h with
        queue := queue
        written := h.written++[⟨(userBytes memory buffers).take n,address,item⟩] }
    | (queue,_,.error _) => some { h with queue := queue }
  | .readStream buffers =>
    match h.queue.readStream mapped (.new buffers) with
    | (queue,.ok (info,copies)) => some { h with
        queue := queue
        served := h.served++[⟨info,copied copies⟩] }
    | (queue,.error _) => some { h with queue := queue }
  | .peekStream _ => some h
  | .setCapacity requestedCapacity =>
    match h.queue.setCapacity requestedCapacity with
    | .ok queue => some { h with queue := queue }
    | .error _ => some h

inductive History.Start : History A → Prop
  | new (capacity : ℕ) : History.Start ⟨.new capacity,[],[]⟩

def carryingReads (served : List (Served A)) : List (ℕ × Served A) :=
  (segments Served.len 0 served).filter fun r => r.2.info.ancillaryData.isSome

def carryingWrites (start : ℕ) (written : List (Message A)) : List (ℕ × Message A) :=
  (segments len start written).filter fun w => w.2.ancillaryData.isSome

structure Delivers (r : ℕ × Served A) (w : ℕ × Message A) : Prop where
  item : r.2.info.ancillaryData = w.2.ancillaryData
  ends : r.1+r.2.len = w.1+w.2.len
  last : w.2.data ≠ [] → r.1 < w.1+w.2.len

def Returns (r : ℕ × Served A) (w : ℕ × Message A) : Prop := Overlap r.1 r.2.len w.1 w.2.len

/-- The queue is a stream. -/
structure Streamed (h : History A) : Prop where
  length : h.queue.length = total len h.queue.messages
  capacity : h.queue.length ≤ h.queue.capacity
  bytes : h.served.flatMap Served.bytes++h.queue.messages.flatMap data = h.written.flatMap data
  bytesRead : ∀ r ∈ h.served,r.info.bytesRead = r.len
  items : ∃ done rest,h.written = done++rest ∧
    List.Forall₂ Delivers (carryingReads h.served) (carryingWrites 0 done) ∧
    h.queue.messages.filterMap ancillaryData = rest.filterMap ancillaryData ∧
    ∀ w ∈ segments len (total len done) rest,w.2.data ≠ [] → total Served.len h.served < w.1+w.2.len
  addresses : ∀ r ∈ segments Served.len 0 h.served,∀ w ∈ segments len 0 h.written,
    ∀ w' ∈ segments len 0 h.written,Returns r w → Returns r w' →
    ∀ a b,w.2.address = some a → w'.2.address = some b → a = b

def trim (n : ℕ) : List (Message A) → List (Message A)
  | [] => []
  | message::rest => { message with data := message.data.drop n }::rest

def Within (n : ℕ) (ms : List (Message A)) : Prop := n = 0 ∨ ∃ m ∈ ms.head?,n < m.len

variable {ms ms' rest taken left : List (Message A)} {n n' : ℕ} {bytes : List UInt8}
  {address address' : Option SocketAddress} {item : Option A} {message : Message A}

lemma trim_zero : trim 0 ms = ms := by cases ms <;> rfl

lemma Within.le (h : Within n ms) : n ≤ total len ms := by
  obtain rfl | ⟨m,hm,hlt⟩ := h
  · exact zero_le _
  · obtain ⟨rest,rfl⟩ := head?_eq_some_iff.mp hm
    rw [total_cons]
    omega

lemma trim_append (h : Within n ms) : trim n (ms++ms') = trim n ms++ms' := by
  cases ms with
  | nil =>
    obtain rfl | ⟨m,hm,-⟩ := h
    · simp [trim_zero]
    · cases hm
  | cons m ms => rfl

lemma Within.append (h : Within n ms) : Within n (ms++ms') := by
  obtain rfl | ⟨m,hm,hlt⟩ := h
  · exact .inl rfl
  · exact .inr ⟨m,by simp [head?_append,mem_def.mp hm],hlt⟩

def Carried (taken : List (Message A)) (n : ℕ) (item : Option A) : Prop :=
  item = none ∧ (∀ m ∈ taken,m.ancillaryData = none) ∨
  ∃ init m,taken = init++[m] ∧ n = 0 ∧ item ≠ none ∧ m.ancillaryData = item ∧
    ∀ x ∈ init,x.ancillaryData = none

/-- The writes that a read takes wholly and the part that it takes of the next one, when some
of the first was read before. -/
structure Consumed (n : ℕ) (rest : List (Message A)) (bytes : List UInt8)
    (address : Option SocketAddress) (item : Option A) (ms' taken left : List (Message A)) (n' : ℕ) :
    Prop where
  split : rest = taken++left
  messages : ms' = trim n' left
  within : Within n' left
  length : n+bytes.length = total len taken+n'
  carried : Carried taken n' item
  fits : ∀ m ∈ taken,Fits m address
  fitsNext : bytes ≠ [] → 0 < n' → ∀ m ∈ left.head?,Fits m address

lemma Carried.cons (h : Carried taken n item) (hm : message.ancillaryData = none) : Carried (message::taken) n item := by
  obtain ⟨hitem,hnone⟩ | ⟨init,m,rfl,hn,hitem,hm',hnone⟩ := h
  · exact .inl ⟨hitem,forall_mem_cons.mpr ⟨hm,hnone⟩⟩
  · exact .inr ⟨message::init,m,rfl,hn,hitem,hm',forall_mem_cons.mpr ⟨hm,hnone⟩⟩

lemma exists_of_eq_trim (h : message::ms = trim n rest) :
    ∃ m,message = { m with data := m.data.drop n } ∧ rest = m::ms := by
  cases rest with
  | nil => cases h
  | cons m rest =>
    obtain ⟨rfl,rfl⟩ := cons.inj h
    exact ⟨m,rfl,rfl⟩

lemma MessageQueue.Reads.consumed (h : Reads address ms bytes address' item ms') (hms : ms = trim n rest)
    (hn : Within n rest) : ∃ taken left n',Consumed n rest bytes address' item ms' taken left n' := by
  induction h generalizing n rest with
  | stop =>
    refine ⟨[],rest,n,rfl,hms,hn,by simp,.inl ⟨rfl,nofun⟩,nofun,?_⟩
    exact fun hne => absurd rfl hne
  | @part _ address' _ _ k hfits _ hk =>
    obtain ⟨m,rfl,rfl⟩ := exists_of_eq_trim hms
    simp only [len,length_drop] at hk
    refine ⟨[],m::_,n+k,rfl,by simp [trim],.inr ⟨m,rfl,?_⟩,?_,.inl ⟨rfl,nofun⟩,nofun,?_⟩
    · simp only [len]
      omega
    · simp
      omega
    · intro _ _ x hx
      cases hx
      exact hfits
  | @item _ address' _ _ x hfits _ hitem =>
    obtain ⟨m,rfl,rfl⟩ := exists_of_eq_trim hms
    refine ⟨[m],_,0,rfl,trim_zero.symm,.inl rfl,?_,?_,?_,fun _ h => absurd h (lt_irrefl 0)⟩
    · obtain rfl | ⟨m',hm',hlt⟩ := hn
      · simp [len]
      · cases hm'
        simp only [len] at hlt
        simp [len]
        omega
    · exact .inr ⟨[],m,rfl,rfl,some_ne_none x,hitem,nofun⟩
    · exact forall_mem_singleton.mpr hfits
  | @next _ _ address' _ _ _ bytes _ hfits _ hitem hreads ih =>
    obtain ⟨m,rfl,rfl⟩ := exists_of_eq_trim hms
    obtain ⟨taken,left,n',hc⟩ := ih trim_zero.symm (.inl rfl)
    have hlength := hc.length
    refine ⟨m::taken,left,n',by rw [hc.split]; rfl,hc.messages,hc.within,?_,hc.carried.cons hitem,?_,?_⟩
    · obtain rfl | ⟨m',hm',hlt⟩ := hn
      · simp [len] at hlength ⊢
        omega
      · cases hm'
        simp [len] at hlt hlength ⊢
        omega
    · exact forall_mem_cons.mpr ⟨hfits.keeps hreads.keeps,hc.fits⟩
    · intro _ hpos x hx
      refine hc.fitsNext ?_ hpos x hx
      rintro rfl
      simp at hlength
      omega

lemma Within.lt_of_last {init : List (Message A)} (h : Within n (init++message::left))
    (hne : message.data ≠ []) : n < total len init+message.len := by
  have hpos : 0 < message.len := length_pos_iff.mpr hne
  obtain rfl | ⟨m,hm,hlt⟩ := h
  · omega
  · cases init with
    | nil =>
      cases hm
      simpa using hlt
    | cons x init =>
      cases hm
      rw [total_cons]
      omega

lemma carryingWrites_append (start : ℕ) (written written' : List (Message A)) :
    carryingWrites start (written++written') =
      carryingWrites start written++carryingWrites (start+total len written) written' := by
  simp [carryingWrites,segments_append]

variable {start : ℕ}

lemma carryingWrites_of_none (h : ∀ m ∈ ms,m.ancillaryData = none) : carryingWrites start ms = [] := by
  refine filter_eq_nil_iff.mpr fun w hw => ?_
  rw [h w.2 (mem_segments hw).1]
  simp

lemma carryingReads_snoc (served : List (Served A)) (r : Served A) : carryingReads (served++[r]) = carryingReads served++
      if r.info.ancillaryData.isSome then [(total Served.len served,r)] else [] := by
  simp only [carryingReads,segments_append,filter_append,segments_singleton,zero_add]
  split_ifs with hsome <;> simp [hsome]

variable {r : Served A}

lemma Consumed.delivers {served : List (Served A)} (hw : Within n rest)
    (h : Consumed n rest r.bytes r.info.address r.info.ancillaryData ms' taken left n')
    (hstart : total Served.len served = start+n) :
    List.Forall₂ Delivers (if r.info.ancillaryData.isSome then [(total Served.len served,r)] else [])
      (carryingWrites start taken) := by
  have hlength := h.length
  obtain ⟨hitem,hnone⟩ | ⟨init,m,rfl,hn',hitem,hm,hnone⟩ := h.carried
  · rw [carryingWrites_of_none hnone,hitem]
    exact .nil
  · have hsome : m.ancillaryData.isSome := by
      rw [hm]
      exact isSome_iff_ne_none.mpr hitem
    rw [if_pos (isSome_iff_ne_none.mpr hitem),carryingWrites_append,carryingWrites_of_none hnone]
    simp only [carryingWrites,segments_singleton,filter_cons,hsome,if_true,filter_nil, nil_append]
    rw [total_append,total_cons,total_nil] at hlength
    refine .cons ⟨hm.symm,?_,fun hne => ?_⟩ .nil
    · simp only [Served.len]
      omega
    · have hrest := h.split
      rw [append_assoc,singleton_append] at hrest
      rw [hrest] at hw
      have hlt := hw.lt_of_last hne
      simp only
      omega

lemma Consumed.addresses {w : ℕ × Message A}
    (h : Consumed n rest r.bytes r.info.address r.info.ancillaryData ms' taken left n')
    (hw : w ∈ segments len start rest) (hreturns : Returns (start+n,r) w) : Fits w.2 r.info.address := by
  have hlength := h.length
  obtain ⟨p,w⟩ := w
  rw [h.split,segments_append,mem_append] at hw
  obtain hw | hw := hw
  · exact h.fits w (mem_segments hw).1
  · cases left with
    | nil => cases hw
    | cons m left =>
      simp only [segments,mem_cons,Prod.mk.injEq] at hw
      obtain ⟨rfl,rfl⟩ | hw := hw
      · have hpos : 0 < n' := by
          by_contra hzero
          refine not_overlap_of_le ?_ hreturns
          simp only [Served.len]
          omega
        refine h.fitsNext ?_ hpos w rfl
        intro hnil
        obtain ⟨i,h1,h2,-⟩ := hreturns
        simp only [Served.len,hnil,length_nil] at h1 h2
        omega
      · obtain ⟨-,hstart,-⟩ := mem_segments hw
        exfalso
        refine not_overlap_of_le ?_ hreturns
        obtain hzero | ⟨m',hm',hlt⟩ := h.within
        · simp only [Served.len]
          omega
        · cases hm'
          simp only [Served.len]
          omega

/-- The writes that were read to their end, and how much of the next one was read. -/
structure Position (h : History A) (done rest : List (Message A)) (n : ℕ) : Prop where
  written : h.written = done++rest
  messages : h.queue.messages = trim n rest
  within : Within n rest
  served : total Served.len h.served = total len done+n
  items : List.Forall₂ Delivers (carryingReads h.served) (carryingWrites 0 done)

lemma Position.unread {h : History A} {done rest : List (Message A)} {w : ℕ × Message A} (hp : Position h done rest n)
    (hw : w ∈ segments len (total len done) rest) (hne : w.2.data ≠ []) :
    total Served.len h.served < w.1+w.2.len := by
  have hpos : 0 < w.2.len := length_pos_iff.mpr hne
  rw [hp.served]
  cases rest with
  | nil => cases hw
  | cons m rest =>
    rw [segments,mem_cons] at hw
    obtain hn | ⟨_,⟨⟩,hlt⟩ := hp.within
    · obtain rfl | hw := hw
      · omega
      · obtain ⟨-,hstart,-⟩ := mem_segments hw
        omega
    · obtain rfl | hw := hw
      · exact Nat.add_lt_add_left hlt _
      · obtain ⟨-,hstart,-⟩ := mem_segments hw
        omega

structure Tracks (h : History A) : Prop where
  counted : h.queue.Counted
  capacity : h.queue.length ≤ h.queue.capacity
  bytes : h.served.flatMap Served.bytes++h.queue.messages.flatMap data = h.written.flatMap data
  bytesRead : ∀ r ∈ h.served,r.info.bytesRead = r.len
  position : ∃ done rest n,Position h done rest n
  addresses : ∀ r ∈ segments Served.len 0 h.served,∀ w ∈ segments len 0 h.written,
    Returns r w → Fits w.2 r.2.info.address

variable {h : History A}

lemma MessageQueue.readStream_of_open {q : MessageQueue A} {user : UserBufferIterator} {faults : UserBuffer → Bool}
    (hopen : q.closed = false) : q.readStream faults user = readLoop faults q.messages.length q user 0 none := by
  simp [readStream,isClosedForReading,hopen]

section

variable (ht : Tracks h)
include ht

lemma Tracks.read {q : MessageQueue A} {info : MessageReadInfo A} {copies : List Copy}
    (hr : ReadsFrom h.queue 0 none q info copies) :
    Tracks { h with queue := q,served := h.served++[⟨info,copied copies⟩] } := by
  obtain ⟨done,rest,n,hp⟩ := ht.position
  obtain ⟨taken,left,n',hc⟩ := hr.reads.consumed hp.messages hp.within
  have hbytes := hr.reads.bytes_append
  have hlength : q.length ≤ h.queue.length := by
    have htotal := congrArg List.length hbytes
    simp only [length_append,length_flatMap] at htotal
    rw [hr.counted.length,ht.counted.length,total,total]
    exact le_of_add_le_right htotal.le
  refine ⟨hr.counted,?_,?_,?_,⟨done++taken,left,n',?_,hc.messages,hc.within,?_,?_⟩,?_⟩
  · rw [hr.capacity]
    exact hlength.trans ht.capacity
  · simp only [flatMap_append,flatMap_cons,flatMap_nil,append_nil,append_assoc]
    rw [hbytes]
    exact ht.bytes
  · exact forall_mem_append.mpr ⟨ht.bytesRead,forall_mem_singleton.mpr (hr.bytesRead.trans (zero_add _))⟩
  · rw [append_assoc,← hc.split]
    exact hp.written
  · have hlen := hc.length
    rw [total_append,hp.served,total_append,total_cons,total_nil]
    simp only [Served.len]
    omega
  · rw [carryingReads_snoc,carryingWrites_append,zero_add]
    exact rel_append hp.items (hc.delivers hp.within hp.served)
  · intro r hmem w hw hreturns
    rw [segments_append,segments_singleton,mem_append,mem_singleton,zero_add] at hmem
    obtain hmem | rfl := hmem
    · exact ht.addresses r hmem w hw hreturns
    · change w ∈ segments len 0 h.written at hw
      rw [hp.written,segments_append,mem_append,zero_add] at hw
      rw [hp.served] at hreturns
      obtain hw | hw := hw
      · obtain ⟨-,-,hend⟩ := mem_segments hw
        obtain ⟨i,hi⟩ := hreturns
        simp only at hi
        omega
      · exact hc.addresses hw hreturns

lemma Tracks.write {message : Message A} (hroom : message.len ≤ h.queue.availableCapacity) :
    Tracks { h with queue := h.queue.writeMessage message,written := h.written++[message] } := by
  obtain ⟨done,rest,n,hp⟩ := ht.position
  have hle : total Served.len h.served ≤ total len h.written := by
    rw [hp.served,hp.written,total_append]
    exact Nat.add_le_add_left hp.within.le _
  refine ⟨⟨ht.counted.opened,?_⟩,?_,?_,ht.bytesRead,
    ⟨done,rest++[message],n,?_,?_,hp.within.append,hp.served,hp.items⟩,?_⟩
  · simp [writeMessage,ht.counted.length]
  · have hcap := ht.capacity
    simp only [availableCapacity] at hroom
    simp only [writeMessage]
    omega
  · simp [writeMessage,← append_assoc,ht.bytes]
  · simp [hp.written]
  · rw [trim_append hp.within,← hp.messages]
    rfl
  · intro r hr w hw hreturns
    rw [segments_append,segments_singleton,mem_append,mem_singleton,zero_add] at hw
    obtain hw | rfl := hw
    · exact ht.addresses r hr w hw hreturns
    · change r ∈ segments Served.len 0 h.served at hr
      obtain ⟨-,-,hend⟩ := mem_segments hr
      refine absurd hreturns (not_overlap_of_le ?_)
      simp only
      omega

lemma Tracks.setCapacity {capacity : ℕ} (hle : h.queue.length ≤ capacity) :
    Tracks { h with queue := { h.queue with capacity := capacity } } := by
  obtain ⟨done,rest,n,hp⟩ := ht.position
  exact ⟨⟨ht.counted.opened,ht.counted.length⟩,hle,ht.bytes,ht.bytesRead,
    ⟨done,rest,n,hp.written,hp.messages,hp.within,hp.served,hp.items⟩,ht.addresses⟩

lemma tracks_step {h' : History A} {call : Call A} (hstep : h.step call = some h') : Tracks h' := by
  cases call with
  | writeStream memory buffers address item =>
    have hopen := ht.counted.opened
    have hle := min_le_right h.queue.availableCapacity (UserBufferIterator.new buffers).remaining
    have hbytes : copyFromUser memory (.new buffers) _ = _ := copyFromUser_eq hle
    have hplaces : (UserBufferIterator.new buffers).places = buffers.flatMap UserBuffer.places := rfl
    rw [hplaces,map_take] at hbytes
    simp only [History.step,MessageQueue.writeStream,writeCopied,copyFromUserFails_mapped,hopen,Bool.false_eq_true,
      if_false,hbytes,some.injEq] at hstep
    subst hstep
    refine ht.write ?_
    simp only [len,length_take]
    omega
  | readStream buffers =>
    obtain ⟨q,info,copies,hread,hr⟩ :=
      @readLoop_reads A h.queue (.new buffers) none _ 0 ht.counted le_rfl
    simp only [History.step,readStream_of_open ht.counted.opened,hread,some.injEq] at hstep
    subst hstep
    exact ht.read hr
  | peekStream buffers =>
    cases hstep
    exact ht
  | setCapacity requestedCapacity =>
    simp only [History.step,MessageQueue.setCapacity] at hstep
    split_ifs at hstep with hlt
    · cases hstep
      exact ht
    · cases hstep
      exact ht.setCapacity (not_lt.mp hlt)

lemma Tracks.streamed : Streamed h := by
  refine ⟨ht.counted.length,ht.capacity,ht.bytes,ht.bytesRead,?_,?_⟩
  · obtain ⟨done,rest,n,hp⟩ := ht.position
    exact ⟨done,rest,hp.written,hp.items,by rw [hp.messages]; cases rest <;> rfl,fun w hw hne => hp.unread hw hne⟩
  · intro r hr w hw w' hw' hret hret' a b ha hb
    obtain hnone | heq := ht.addresses r hr w hw hret
    · rw [hnone] at ha
      cases ha
    · obtain hnone' | heq' := ht.addresses r hr w' hw' hret'
      · rw [hnone'] at hb
        cases hb
      · exact some.inj (by rw [← ha,← hb,heq,heq'])

end

/-- Every history of calls is that of a stream, and a peek returns what a read would. -/
theorem reached_streamed {h : History A}
    (hreach : Reachable History.Start (fun _ _ => True) History.step h) :
    Streamed h ∧ ∀ (faults : UserBuffer → Bool) (user : UserBufferIterator),
      h.queue.peekStream faults user = (h.queue.readStream faults user).2 := by
  have ht : Tracks h := by
    refine hreach.invariant (I := Tracks) ?_ fun _ _ _ ht _ hstep => tracks_step ht hstep
    rintro _ ⟨capacity⟩
    exact ⟨⟨rfl,rfl⟩,zero_le _,rfl,nofun,⟨[],[],0,rfl,rfl,.inl rfl,rfl,.nil⟩,nofun⟩
  refine ⟨ht.streamed,fun faults user => ?_⟩
  rw [readStream_of_open ht.counted.opened]
  simp only [peekStream,isClosedForReading,ht.counted.opened]
  exact peekLoop_eq ht.counted.opened le_rfl

def sampleHistory (calls : List (Call ℕ)) : Option (History ℕ) :=
  run (fun _ _ => True) History.step ⟨.new 10,[],[]⟩ calls

lemma sampleHistory_reached {calls : List (Call ℕ)} {h : History ℕ} (hs : sampleHistory calls = some h) :
    Reachable History.Start (fun _ _ => True) History.step h :=
  (Reachable.start (.new 10)).run hs

def sampleMemory (address : ℕ) : UInt8 := UInt8.ofNat address

def sampleJoined : List (Call ℕ) := [.writeStream sampleMemory [⟨1,2⟩] none none,
    .writeStream sampleMemory [⟨5,1⟩] (some (.unix [])) (some 7),.readStream [⟨100,1⟩,⟨200,9⟩]]

def sampleJoinedHistory : History ℕ := ⟨.new 10,[⟨[1,2],none,none⟩,⟨[5],some (.unix []),some 7⟩],
    [⟨⟨3,3,some (.unix []),some 7⟩,[1,2,5]⟩]⟩

theorem reached_streamed_sample : sampleHistory sampleJoined = some sampleJoinedHistory ∧
    Streamed sampleJoinedHistory ∧ ∀ (faults : UserBuffer → Bool) (user : UserBufferIterator),
      sampleJoinedHistory.queue.peekStream faults user = (sampleJoinedHistory.queue.readStream faults user).2 := by
  have hs : sampleHistory sampleJoined = some sampleJoinedHistory := by decide +kernel
  exact ⟨hs,reached_streamed (sampleHistory_reached hs)⟩

/-- The item of a write without bytes is returned by a read without bytes, and bytes of a
write without an address are returned together with those of one with an address. -/
theorem reached_item_without_byte :
    (∃ (h : History ℕ) (r : Served ℕ),Reachable History.Start (fun _ _ => True) History.step h ∧
      r ∈ h.served ∧ r.info.ancillaryData ≠ none ∧ r.bytes = []) ∧
    ∃ (h : History ℕ) (r : ℕ × Served ℕ) (w w' : ℕ × Message ℕ),
      Reachable History.Start (fun _ _ => True) History.step h ∧
      r ∈ segments Served.len 0 h.served ∧ w ∈ segments len 0 h.written ∧
      w' ∈ segments len 0 h.written ∧ Returns r w ∧ Returns r w' ∧
      w.2.address ≠ w'.2.address := by
  constructor
  · have hs : sampleHistory [.writeStream sampleMemory [] none (some 7),.readStream [⟨100,1⟩]] =
        some ⟨.new 10,[⟨[],none,some 7⟩],[⟨⟨0,0,none,some 7⟩,[]⟩]⟩ := by decide +kernel
    exact ⟨_,_,sampleHistory_reached hs,mem_singleton_self _,nofun,rfl⟩
  · have hs : sampleHistory sampleJoined = some sampleJoinedHistory := by decide +kernel
    refine ⟨_,(0,⟨⟨3,3,some (.unix []),some 7⟩,[1,2,5]⟩),(0,⟨[1,2],none,none⟩),
      (2,⟨[5],some (.unix []),some 7⟩),sampleHistory_reached hs,by decide,by decide,by decide,
      ⟨0,by decide⟩,⟨2,by decide⟩,by decide⟩

end Fuchsia.Starnix
