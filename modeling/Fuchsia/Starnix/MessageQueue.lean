import Mathlib.Tactic

/-! `MessageQueue` (`starnix/fs/buffers/message_queue.rs`), with the messages
(`message_types.rs`) and the user buffers (`types/user_buffer.rs`). A copy from or to the memory of
the task fails at some chunks of it: `faults`. -/
namespace Fuchsia.Starnix

inductive Errno
  | EAGAIN
  | EBUSY
  | ECONNRESET
  | EFAULT
  | EMSGSIZE
  | EPIPE
  deriving DecidableEq,Repr

structure UserBuffer where
  address : ℕ
  length : ℕ
  deriving DecidableEq,Repr

/-- The buffers that are left, and how much of the first is used. -/
structure UserBufferIterator where
  buffers : List UserBuffer
  offset : ℕ
  fits : ∀ buffer ∈ buffers.head?,offset ≤ buffer.length

namespace UserBufferIterator

def new (buffers : List UserBuffer) : UserBufferIterator := ⟨buffers,0,fun _ _ => Nat.zero_le _⟩

def remaining (user : UserBufferIterator) : ℕ := (user.buffers.map UserBuffer.length).sum-user.offset

def skip : (buffers : List UserBuffer) → (offset : ℕ) →
    (∀ buffer ∈ buffers.head?,offset ≤ buffer.length) → UserBufferIterator
  | [],_,_ => new []
  | buffer::rest,offset,fits =>
    if offset = buffer.length then skip rest 0 (fun _ _ => Nat.zero_le _)
    else ⟨buffer::rest,offset,fits⟩

def next : UserBufferIterator → ℕ → Option (UserBuffer × UserBufferIterator)
  | ⟨[],_,_⟩,_ => none
  | ⟨buffer::rest,offset,fits⟩,limit =>
    if limit = 0 then none
    else
      let chunkSize := min limit (buffer.length-offset)
      some (⟨buffer.address+offset,chunkSize⟩,skip (buffer::rest) (offset+chunkSize) (by
        intro b hb
        cases hb
        have := fits buffer rfl
        have := Nat.min_le_right limit (buffer.length-offset)
        omega))

end UserBufferIterator

structure Copy where
  address : ℕ
  bytes : List UInt8
  deriving DecidableEq,Repr

def copied (copies : List Copy) : List UInt8 := copies.flatMap Copy.bytes

namespace MessageData

open UserBufferIterator

def copyFromUserLoop (memory : ℕ → UInt8) (limit : ℕ) : ℕ → ℕ → UserBufferIterator → List UInt8
  | 0,_,_ => []
  | fuel+1,offset,user =>
    match user.next (limit-offset) with
    | none => []
    | some (buffer,user) => (List.range buffer.length).map (fun i => memory (buffer.address+i))++
        copyFromUserLoop memory limit fuel (offset+buffer.length) user

/-- The bytes at the buffers, in a vector of zeros. -/
def copyFromUser (memory : ℕ → UInt8) (user : UserBufferIterator) (limit : ℕ) : List UInt8 :=
  let bytes := copyFromUserLoop memory limit user.buffers.length 0 user
  bytes++List.replicate (limit-bytes.length) 0

/-- Some read of `copy_from_user` fails. -/
def copyFromUserFails (faults : UserBuffer → Bool) (limit : ℕ) : ℕ → ℕ → UserBufferIterator → Bool
  | 0,_,_ => false
  | fuel+1,offset,user =>
    match user.next (limit-offset) with
    | none => false
    | some (buffer,user) => faults buffer || copyFromUserFails faults limit fuel (offset+buffer.length) user

def splitOff (bytes : List UInt8) (index : ℕ) : Option (List UInt8) :=
  if index < bytes.length then some (bytes.drop index) else none

def copyToUserLoop (bytes : List UInt8) : ℕ → ℕ → UserBufferIterator → ℕ × List Copy × UserBufferIterator
  | 0,bytesRead,user => (bytesRead,[],user)
  | fuel+1,bytesRead,user =>
    match user.next (bytes.length-bytesRead) with
    | none => (bytesRead,[],user)
    | some (buffer,user) =>
      let (total,copies,user) := copyToUserLoop bytes fuel (bytesRead+buffer.length) user
      (total,⟨buffer.address,(bytes.drop bytesRead).take buffer.length⟩::copies,user)

/-- The number of bytes that are copied, the copies, and what is left of the buffers. -/
def copyToUser (bytes : List UInt8) (user : UserBufferIterator) : ℕ × List Copy × UserBufferIterator :=
  copyToUserLoop bytes user.buffers.length 0 user

/-- Some write of `copy_to_user` fails. -/
def copyToUserFails (faults : UserBuffer → Bool) (copies : List Copy) : Bool :=
  copies.any fun copy => faults ⟨copy.address,copy.bytes.length⟩

/-- All of the memory can be read and written. -/
def mapped : UserBuffer → Bool := fun _ => false

lemma copyToUserFails_mapped (copies : List Copy) : copyToUserFails mapped copies = false := List.any_eq_false.mpr nofun

lemma copyToUserFails_append (faults : UserBuffer → Bool) (copies rest : List Copy) :
    copyToUserFails faults (copies++rest) = (copyToUserFails faults copies || copyToUserFails faults rest) :=
  List.any_append

lemma copyFromUserFails_mapped (limit fuel offset : ℕ) (user : UserBufferIterator) :
    copyFromUserFails mapped limit fuel offset user = false := by
  induction fuel generalizing offset user with
  | zero => rfl
  | succ fuel ih =>
    unfold copyFromUserFails
    split
    · rfl
    · rw [ih]
      rfl

end MessageData

inductive SocketAddress
  | unspecified
  | unix (path : List UInt8)
  deriving DecidableEq,Repr

variable (A : Type)

structure Message where
  data : List UInt8
  address : Option SocketAddress
  ancillaryData : Option A
  deriving DecidableEq,Repr

structure MessageReadInfo where
  bytesRead : ℕ
  messageLength : ℕ
  address : Option SocketAddress
  ancillaryData : Option A
  deriving DecidableEq,Repr

structure MessageQueue where
  messages : List (Message A)
  length : ℕ
  capacity : ℕ
  closed : Bool
  peerClosedWithUnreadData : Bool
  deriving DecidableEq,Repr

variable {A}

def Message.len (message : Message A) : ℕ := message.data.length

namespace MessageQueue

open MessageData

def new (capacity : ℕ) : MessageQueue A := ⟨[],0,capacity,false,false⟩

def availableCapacity (q : MessageQueue A) : ℕ := q.capacity-q.length

def setCapacity (q : MessageQueue A) (requestedCapacity : ℕ) : Except Errno (MessageQueue A) :=
  if requestedCapacity < q.length then .error .EBUSY
  else .ok { q with capacity := requestedCapacity }

def isClosedForReading (q : MessageQueue A) : Except Errno Bool :=
  if q.closed ∧ q.peerClosedWithUnreadData then .error .ECONNRESET else .ok q.closed

/-- The address of the batch with a message, unless that has another one. -/
def updateAddress (message : Message A) (address : Option SocketAddress) :
    Option (Option SocketAddress) :=
  if message.address.isSome ∧ address ≠ message.address then
    if address.isSome then none else some message.address
  else some address

def readMessage (q : MessageQueue A) : Option (Message A × MessageQueue A) := if q.closed then none
  else
    match q.messages with
    | [] => none
    | message::rest => some (message,{ q with messages := rest,length := q.length-message.len })

def writeFront (q : MessageQueue A) (message : Message A) : MessageQueue A :=
  { q with messages := message::q.messages,length := q.length+message.len }

def writeMessage (q : MessageQueue A) (message : Message A) : MessageQueue A :=
  { q with messages := q.messages++[message],length := q.length+message.len }

def readInfo (total : ℕ) (address : Option SocketAddress) (item : Option A) : MessageReadInfo A :=
  ⟨total,total,address,item⟩

variable (faults : UserBuffer → Bool)

/-- The loop of `read_stream`: the fuel bounds the messages that are read. -/
def readLoop : ℕ → MessageQueue A → UserBufferIterator → ℕ → Option SocketAddress →
    MessageQueue A × Except Errno (MessageReadInfo A × List Copy)
  | 0,q,_,total,address => (q,.ok (readInfo total address none,[]))
  | fuel+1,q,user,total,address =>
    match q.readMessage with
    | none => (q,.ok (readInfo total address none,[]))
    | some (message,q) =>
      match updateAddress message address with
      | none => (q.writeFront message,.ok (readInfo total address none,[]))
      | some address =>
        let (bytesRead,copies,user) := copyToUser message.data user
        -- the message is not put back
        if copyToUserFails faults copies then (q,.error .EFAULT)
        else
          let total := total+bytesRead
          match splitOff message.data bytesRead with
          | some remainingData =>
            (q.writeFront ⟨remainingData,message.address,message.ancillaryData⟩,
              .ok (readInfo total address none,copies))
          | none =>
            match message.ancillaryData with
            | some item => (q,.ok (readInfo total address (some item),copies))
            | none =>
              let (q,result) := readLoop fuel q user total address
              (q,result.map fun (info,rest) => (info,copies++rest))

def readStream (q : MessageQueue A) (user : UserBufferIterator) :
    MessageQueue A × Except Errno (MessageReadInfo A × List Copy) :=
  match q.isClosedForReading with
  | .error errno => (q,.error errno)
  | .ok true => (q,.ok (readInfo 0 none none,[]))
  | .ok false => readLoop faults q.messages.length q user 0 none

def peekLoop : List (Message A) → UserBufferIterator → ℕ → Option SocketAddress →
    Except Errno (MessageReadInfo A × List Copy)
  | [],_,total,address => .ok (readInfo total address none,[])
  | message::messages,user,total,address =>
    match updateAddress message address with
    | none => .ok (readInfo total address none,[])
    | some address =>
      let (bytesRead,copies,user) := copyToUser message.data user
      if copyToUserFails faults copies then .error .EFAULT
      else
        let total := total+bytesRead
        if bytesRead < message.len then .ok (readInfo total address none,copies)
        else
          match message.ancillaryData with
          | some item => .ok (readInfo total address (some item),copies)
          | none => (peekLoop messages user total address).map fun (info,rest) => (info,copies++rest)

def peekStream (q : MessageQueue A) (user : UserBufferIterator) :
    Except Errno (MessageReadInfo A × List Copy) := do
  if ← q.isClosedForReading then .ok (readInfo 0 none none,[])
  else peekLoop faults q.messages user 0 none

def readDatagram (q : MessageQueue A) (user : UserBufferIterator) :
    MessageQueue A × Except Errno (MessageReadInfo A × List Copy) :=
  match q.readMessage with
  | none => (q,.error .EAGAIN)
  | some (message,q) =>
    let (bytesRead,copies,_) := copyToUser message.data user
    if copyToUserFails faults copies then (q,.error .EFAULT)
    else (q,.ok (⟨bytesRead,message.len,message.address,message.ancillaryData⟩,copies))

def writeCopied (memory : ℕ → UInt8) (q : MessageQueue A) (user : UserBufferIterator)
    (address : Option SocketAddress) (ancillaryData : Option A) (actual : ℕ) :
    MessageQueue A × Option A × Except Errno ℕ :=
  if copyFromUserFails faults actual user.buffers.length 0 user then (q,ancillaryData,.error .EFAULT)
  else (q.writeMessage ⟨copyFromUser memory user actual,address,ancillaryData⟩,none,.ok actual)

def writeStream (memory : ℕ → UInt8) (q : MessageQueue A) (user : UserBufferIterator)
    (address : Option SocketAddress) (ancillaryData : Option A) : MessageQueue A × Option A × Except Errno ℕ :=
  if q.closed then (q,ancillaryData,.error .EPIPE)
  else writeCopied faults memory q user address ancillaryData (min q.availableCapacity user.remaining)

def writeDatagram (memory : ℕ → UInt8) (q : MessageQueue A) (user : UserBufferIterator)
    (address : Option SocketAddress) (ancillaryData : Option A) : MessageQueue A × Option A × Except Errno ℕ :=
  if q.closed then (q,ancillaryData,.error .EPIPE)
  else if q.capacity < user.remaining then (q,ancillaryData,.error .EMSGSIZE)
  else if q.availableCapacity < user.remaining then (q,ancillaryData,.error .EAGAIN)
  else writeCopied faults memory q user address ancillaryData user.remaining

/-! What an error leaves of the queue and of the ancillary data of the caller. -/

variable {faults} {memory : ℕ → UInt8} {q q' q'' : MessageQueue A} {message : Message A} {user : UserBufferIterator}
  {address : Option SocketAddress} {item item' : Option A} {e : Errno} {info : MessageReadInfo A} {copies : List Copy}

lemma readMessage_messages (h : q.readMessage = some (message,q')) : q.messages = message::q'.messages := by
  unfold readMessage at h
  split at h
  · cases h
  · split at h
    · cases h
    · cases h
      assumption

def Lost (q q' : MessageQueue A) : Prop := ∃ lost,lost ≠ [] ∧ lost++q'.messages = q.messages

lemma Lost.of_readMessage (h : q.readMessage = some (message,q')) : Lost q q' :=
  ⟨[message],List.cons_ne_nil _ _,(readMessage_messages h).symm⟩

lemma Lost.of_rest (h : q.readMessage = some (message,q')) (hlost : Lost q' q'') : Lost q q'' := by
  obtain ⟨lost,-,happend⟩ := hlost
  refine ⟨message::lost,List.cons_ne_nil _ _,?_⟩
  rw [readMessage_messages h,← happend,List.cons_append]

lemma Lost.ne (h : Lost q q') : q' ≠ q := by
  rintro rfl
  obtain ⟨lost,hne,happend⟩ := h
  have hlength := congrArg List.length happend
  rw [List.length_append,Nat.add_eq_right] at hlength
  exact hne (List.length_eq_zero_iff.mp hlength)

def FaultsAt (faults : UserBuffer → Bool) (q : MessageQueue A)
    (mapped result : MessageQueue A × Except Errno (MessageReadInfo A × List Copy)) : Prop :=
  ∀ info copies,mapped.2 = .ok (info,copies) → if copyToUserFails faults copies then
    result.2 = .error .EFAULT ∧ Lost q result.1 else result = mapped

lemma readLoop_faults (fuel total : ℕ) :
    FaultsAt faults q (readLoop mapped fuel q user total address) (readLoop faults fuel q user total address) := by
  induction fuel generalizing q user total address with
  | zero =>
    rintro _ _ ⟨⟩
    rfl
  | succ fuel ih =>
    unfold readLoop
    cases hm : q.readMessage with
    | none =>
      rintro _ _ ⟨⟩
      rfl
    | some read =>
      obtain ⟨message,rest⟩ := read
      cases ha : updateAddress message address with
      | none =>
        simp only [ha]
        rintro _ _ ⟨⟩
        rfl
      | some address =>
        simp only [ha,copyToUserFails_mapped,Bool.false_eq_true,if_false]
        cases hsplit : splitOff message.data (copyToUser message.data user).1 with
        | some remainingData =>
          rintro _ _ ⟨⟩
          split_ifs with hfault
          · exact ⟨rfl,.of_readMessage hm⟩
          · rfl
        | none =>
          cases hitem : message.ancillaryData with
          | some item =>
            rintro _ _ ⟨⟩
            split_ifs with hfault
            · exact ⟨rfl,.of_readMessage hm⟩
            · rfl
          | none =>
            intro info copies hread
            have hrest := @ih rest (copyToUser message.data user).2.2 address (total+(copyToUser message.data user).1)
            generalize readLoop mapped fuel rest _ _ _ = result at hread hrest
            obtain ⟨q1,_ | ⟨info1,copies1⟩⟩ := result
            · cases hread
            cases hread
            have hrest := hrest _ _ rfl
            rw [copyToUserFails_append]
            cases hfault : copyToUserFails faults (copyToUser message.data user).2.1 with
            | true => exact ⟨rfl,.of_readMessage hm⟩
            | false =>
              simp only [Bool.false_or,Bool.false_eq_true,if_false]
              split_ifs at hrest ⊢
              · exact ⟨by rw [hrest.1]; rfl,.of_rest hm hrest.2⟩
              · rw [hrest]

lemma readLoop_mapped (fuel total : ℕ) :
    ∃ info copies,(readLoop mapped fuel q user total address).2 = .ok (info,copies) := by
  fun_induction readLoop mapped fuel q user total address
  case case4 hfault => exact absurd hfault (by simp [copyToUserFails_mapped])
  case case7 ih =>
    obtain ⟨info,copies,hread⟩ := ih
    simp_all [Except.map]
  all_goals exact ⟨_,_,rfl⟩

lemma readStream_faults : FaultsAt faults q (readStream mapped q user) (readStream faults q user) := by
  unfold readStream
  split
  · exact nofun
  · rintro _ _ ⟨⟩
    rfl
  · exact readLoop_faults _ _

lemma readDatagram_faults : FaultsAt faults q (readDatagram mapped q user) (readDatagram faults q user) := by
  unfold readDatagram
  cases hm : q.readMessage with
  | none => exact nofun
  | some read =>
    simp only [copyToUserFails_mapped,Bool.false_eq_true,if_false]
    rintro _ _ ⟨⟩
    split_ifs
    · exact ⟨rfl,.of_readMessage hm⟩
    · rfl

/-- No chunk that the read writes, when all of the memory is there, faults. -/
def Harmless (faults : UserBuffer → Bool) (result : MessageQueue A × Except Errno (MessageReadInfo A × List Copy)) :
    Prop := ∀ info copies,result.2 = .ok (info,copies) → ¬copyToUserFails faults copies

/-- An error leaves the queue as it was. -/
def KeepsQueue (q : MessageQueue A) (result : MessageQueue A × Except Errno (MessageReadInfo A × List Copy)) : Prop :=
  ∀ e,result.2 = .error e → result.1 = q

/-- An error leaves the queue and the ancillary data of the caller as they were. -/
def KeepsItem (q : MessageQueue A) (item : Option A) (result : MessageQueue A × Option A × Except Errno ℕ) : Prop :=
  ∀ e,result.2.2 = .error e → result.1 = q ∧ result.2.1 = item

lemma FaultsAt.keeps_iff {m result : MessageQueue A × Except Errno (MessageReadInfo A × List Copy)}
    (h : FaultsAt faults q m result) (herror : (∃ e,m.2 = .error e) → result = m ∧ m.1 = q) :
    KeepsQueue q result ↔ Harmless faults m := by
  obtain ⟨q1,e | ⟨info,copies⟩⟩ := m
  · obtain ⟨rfl,rfl⟩ := herror ⟨e,rfl⟩
    exact ⟨fun _ => nofun,fun _ _ _ => rfl⟩
  · have hcopies := h info copies rfl
    split_ifs at hcopies with hfault
    · exact ⟨fun hkeeps => absurd (hkeeps _ hcopies.1) hcopies.2.ne,fun hnone => absurd hfault (hnone _ _ rfl)⟩
    · subst hcopies
      refine ⟨fun _ => ?_,fun _ => nofun⟩
      rintro _ _ ⟨⟩
      exact hfault

lemma writeCopied_keeps (actual : ℕ) : KeepsItem q item (writeCopied faults memory q user address item actual) := by
  unfold writeCopied
  split_ifs
  · exact fun _ _ => ⟨rfl,rfl⟩
  · exact nofun

/-- An error of a write leaves all as it was; those of a read do just if no chunk that it writes can
fail. -/
theorem errors_keep (faults : UserBuffer → Bool) (memory : ℕ → UInt8) (q : MessageQueue A) (user : UserBufferIterator)
    (address : Option SocketAddress) (item : Option A) :
    (KeepsQueue q (readStream faults q user) ↔ Harmless faults (readStream mapped q user)) ∧
    (KeepsQueue q (readDatagram faults q user) ↔ Harmless faults (readDatagram mapped q user)) ∧
    KeepsItem q item (writeStream faults memory q user address item) ∧
    KeepsItem q item (writeDatagram faults memory q user address item) := by
  refine ⟨readStream_faults.keeps_iff ?_,readDatagram_faults.keeps_iff ?_,?_,?_⟩
  · rintro ⟨e,he⟩
    unfold readStream at he ⊢
    split at he
    · exact ⟨rfl,rfl⟩
    · cases he
    · obtain ⟨info,copies,hread⟩ := @readLoop_mapped A q user none q.messages.length 0
      rw [hread] at he
      cases he
  · rintro ⟨e,he⟩
    unfold readDatagram at he ⊢
    split at he
    · exact ⟨rfl,rfl⟩
    · simp [copyToUserFails_mapped] at he
  · unfold writeStream
    split_ifs
    · exact fun _ _ => ⟨rfl,rfl⟩
    · exact writeCopied_keeps _
  · unfold writeDatagram
    split_ifs
    iterate 3 exact fun _ _ => ⟨rfl,rfl⟩
    exact writeCopied_keeps _

def twoMessages : MessageQueue ℕ := ⟨[⟨[1],none,none⟩,⟨[2],none,some 7⟩],2,3,false,false⟩

theorem errors_keep_sample : KeepsQueue twoMessages
      (readStream (fun buffer => buffer.address = 2) twoMessages (.new [⟨0,1⟩,⟨1,1⟩,⟨2,1⟩])) ∧
    (writeDatagram (fun buffer => buffer.address = 2) (fun _ => 0) twoMessages (.new [⟨2,1⟩]) none (some 5)).2.2 =
      .error .EFAULT ∧
    (writeDatagram (fun buffer => buffer.address = 2) (fun _ => 0) twoMessages (.new [⟨2,1⟩]) none (some 5)).1 =
      twoMessages := by
  have h := errors_keep (fun buffer => buffer.address = 2) (fun _ => 0) twoMessages
  refine ⟨(h (.new [⟨0,1⟩,⟨1,1⟩,⟨2,1⟩]) none none).1.mpr ?_,rfl,((h (.new [⟨2,1⟩]) none (some 5)).2.2.2 _ rfl).1⟩
  rintro _ _ ⟨⟩
  decide

/-- The second message has its data and its ancillary data lost with those of the first. -/
theorem readStream_fault : readStream (fun buffer => buffer.address = 1) twoMessages (.new [⟨0,1⟩,⟨1,1⟩]) =
    (⟨[],0,3,false,false⟩,.error .EFAULT) := rfl

end MessageQueue

end Fuchsia.Starnix
