import LinuxLearn.Lib.Frames
import LinuxLearn.Lib.Lines
import LinuxLearn.Lib.Machine
import LinuxLearn.Lib.Text
import LinuxLearn.ChatRoom.Chat

/-!
# Framing — records on the wire between chat client and server

Both ends send every record as a frame of `MAX_LINE` bytes, the record first and zeros behind it.
The receivers do not look for frames: each `recv` asks for its own number of bytes, and whatever it
returns is taken for a record.  The input of the machines below is the number of bytes that each
`recv` returns.

A record is modelled by its bytes.  What the programs copy past the end of a record in memory is
not modelled.
-/

namespace LinuxLearn
namespace ChatRoom

open Lib

/-! ## Records and frames -/

abbrev Bytes := List UInt8

abbrev MAX_LINE : Nat := 8192

/-- `sizeof(Message)` -/
abbrev MESSAGE_SIZE : Nat := 2148

/-- `sizeof(User)` -/
abbrev USER_SIZE : Nat := 84

/-- The offset of `msgType` in a `Message`. -/
abbrev MSG_TYPE_OFFSET : Nat := 2048

/-- The offset of `msgRet` in a `Message`. -/
abbrev MSG_RET_OFFSET : Nat := 2052

abbrev WireMessage := { raw : Bytes // raw.length = MESSAGE_SIZE }

abbrev WireUser := { raw : Bytes // raw.length = USER_SIZE }

/-- The `int` at an offset, little-endian. -/
def intAt (raw : Bytes) (k : Nat) : Int :=
  let u := byteAt raw k + 256 * byteAt raw (k + 1) + 65536 * byteAt raw (k + 2) +
    16777216 * byteAt raw (k + 3)
  if u < 2147483648 then u else u - 4294967296

def wireType (raw : Bytes) : Option MessageType :=
  MessageType.ofCode (intAt raw MSG_TYPE_OFFSET)

/-- What an end does with a record. -/
inductive Action
  | request (raw : Bytes)
  | user (raw : Bytes)
  | result (raw : Bytes)
  | message (raw : Bytes)
  deriving DecidableEq, Repr

/-- A record to be sent, with what the other end is to do with it. -/
structure Item where
  raw : Bytes
  fits : raw.length ≤ MAX_LINE
  actions : List Action

/-! ## Receiving -/

/-- One end: the bytes that it has not read yet, where it is, and what it has acted on. -/
structure End (φ : Type) where
  stream : Bytes
  phase : φ
  acted : List Action

/-- The buffer and the rest of the stream after `recv(sockfd, buf, request, 0)` returned `n`. -/
def recv (stream buf : Bytes) (request n : Nat) : Except Fault (Bytes × Bytes) :=
  if n = 0 ∨ request < n ∨ stream.length < n then .error .impossible
  -- Two of the callers ask for one byte more than the buffer has.
  else if MAX_LINE < n then .error .outOfBounds
  else .ok (overwrite buf 0 (stream.take n), stream.drop n)

/-- The record at the start of a buffer. -/
def messageIn (buf : Bytes) : Bytes :=
  buf.take MESSAGE_SIZE

def userIn (buf : Bytes) : Bytes :=
  buf.take USER_SIZE

/-- A buffer after `memset(buf, 0, MAX_LINE)`. -/
def zeros : Bytes :=
  List.replicate MAX_LINE 0

/-- A loop acts on the records of some types. -/
def actsOn (kinds : List MessageType) (raw : Bytes) : Bool :=
  kinds.any fun t => wireType raw == some t

/-! ## The server's end -/

inductive ServerPhase
  | handleRequest
  | registerUser
  | loginUser
  | enterChat (buf : Bytes)
  | closed
  deriving DecidableEq, Repr

/-- The requests that `handleRequest` acts on. -/
def requestKinds : List MessageType :=
  [.register, .login]

/-- The requests that `enterChat` acts on. -/
def chatKinds : List MessageType :=
  [.groupChat, .personalChat, .viewUserList, .viewRecords, .exit]

/-- `stack` is what the uninitialised buffer of `loginUser` or `registerUser` holds. -/
def serverEndStep (stack : Bytes) (s : End ServerPhase) (n : Nat) :
    Except Fault (End ServerPhase) :=
  match s.phase with
  | .handleRequest =>
      match recv s.stream zeros (MAX_LINE + 1) n with
      | .error e => .error e
      | .ok (buf, stream) =>
          let message := messageIn buf
          match wireType message with
          | some .register => .ok ⟨stream, .registerUser, s.acted ++ [.request message]⟩
          | some .login => .ok ⟨stream, .loginUser, s.acted ++ [.request message]⟩
          -- A record of another type is dropped, and the connection with it.
          | _ => .ok ⟨stream, .closed, s.acted⟩
  | .registerUser =>
      match recv s.stream stack USER_SIZE n with
      | .error e => .error e
      | .ok (buf, stream) => .ok ⟨stream, .closed, s.acted ++ [.user (userIn buf)]⟩
  | .loginUser =>
      match recv s.stream stack USER_SIZE n with
      | .error e => .error e
      | .ok (buf, stream) => .ok ⟨stream, .enterChat zeros, s.acted ++ [.user (userIn buf)]⟩
  | .enterChat buf =>
      match recv s.stream buf (MAX_LINE + 1) n with
      | .error e => .error e
      | .ok (buf, stream) =>
          let message := messageIn buf
          -- Records of unknown types are ignored here.
          let phase := if wireType message = some .exit then .closed else .enterChat buf
          if actsOn chatKinds message then .ok ⟨stream, phase, s.acted ++ [.message message]⟩
          else .ok ⟨stream, phase, s.acted⟩
  | .closed => .error .impossible

/-- What a client sends on one connection. -/
structure ClientRecords where
  hello : WireMessage
  user : WireUser
  messages : List WireMessage

theorem message_fits (m : WireMessage) : m.val.length ≤ MAX_LINE := by
  rw [m.property]
  decide

theorem user_fits (u : WireUser) : u.val.length ≤ MAX_LINE := by
  rw [u.property]
  decide

def messageItem (kinds : List MessageType) (m : WireMessage) : Item where
  raw := m.val
  fits := message_fits m
  actions := if actsOn kinds m.val then [.message m.val] else []

def helloItem (m : WireMessage) : Item where
  raw := m.val
  fits := message_fits m
  actions := if actsOn requestKinds m.val then [.request m.val] else []

def userItem (u : WireUser) : Item where
  raw := u.val
  fits := user_fits u
  actions := [.user u.val]

def ClientRecords.items (c : ClientRecords) : List Item :=
  helloItem c.hello :: userItem c.user :: c.messages.map (messageItem chatKinds)

/-- The bytes on the wire. -/
def wire (items : List Item) : Bytes :=
  frames MAX_LINE 0 (items.map Item.raw)

def serverEnd (stack : Bytes) (c : ClientRecords) : Machine (End ServerPhase) Nat Fault where
  init := ⟨wire c.items, .handleRequest, []⟩
  step := serverEndStep stack

/-! ## The client's end -/

inductive ClientPhase
  | loginUser
  | recvMsg (buf : Bytes)
  | returned
  deriving DecidableEq, Repr

/-- The records that `recvMsg` shows. -/
def shownKinds : List MessageType :=
  [.viewUserList, .personalChat, .groupChat, .viewRecords, .result]

/-- `stack` is what the uninitialised buffer of `recvMsg` holds. -/
def clientEndStep (stack : Bytes) (s : End ClientPhase) (n : Nat) :
    Except Fault (End ClientPhase) :=
  match s.phase with
  | .loginUser =>
      match recv s.stream zeros MAX_LINE n with
      | .error e => .error e
      | .ok (buf, stream) =>
          let message := messageIn buf
          let phase :=
            if intAt message MSG_RET_OFFSET = StateRet.success.code then .recvMsg stack
            else .returned
          .ok ⟨stream, phase, s.acted ++ [.result message]⟩
  | .recvMsg buf =>
      match recv s.stream buf MESSAGE_SIZE n with
      | .error e => .error e
      | .ok (buf, stream) =>
          let message := messageIn buf
          if actsOn shownKinds message then
            .ok ⟨stream, .recvMsg buf, s.acted ++ [.message message]⟩
          else .ok ⟨stream, .recvMsg buf, s.acted⟩
  | .returned => .error .impossible

/-- What the server sends on one connection after a LOGIN request. -/
structure ServerRecords where
  result : WireMessage
  messages : List WireMessage

def resultItem (m : WireMessage) : Item where
  raw := m.val
  fits := message_fits m
  actions := [.result m.val]

def ServerRecords.items (d : ServerRecords) : List Item :=
  resultItem d.result :: d.messages.map (messageItem shownKinds)

def clientEnd (stack : Bytes) (d : ServerRecords) : Machine (End ClientPhase) Nat Fault where
  init := ⟨wire d.items, .loginUser, []⟩
  step := clientEndStep stack

/-! ## The law and the condition -/

/-- The end has acted on exactly the records whose frames it has begun to read, each once and in
order. -/
def InOrder {φ : Type} (items : List Item) (s : End φ) : Prop :=
  s.acted = (items.take (items.length - s.stream.length / MAX_LINE)).flatMap Item.actions

/-- A pass of a receive loop that starts at a frame gets the whole record and nothing of the next
frame.  A pass inside a frame stays in it, and it overwrites the type of the record in the buffer,
unless the loop does not act on that type. -/
def AlignedPass (kinds : List MessageType) (stream buf : Bytes) (n : Nat) : Prop :=
  if stream.length % MAX_LINE = 0 then MESSAGE_SIZE ≤ n ∧ n ≤ MAX_LINE
  else n ≤ stream.length % MAX_LINE ∧
    (MSG_TYPE_OFFSET < n ∨ actsOn kinds (messageIn buf) = false)

/-- The first `recv` of the server gets exactly one frame, the second exactly the user record.  When
no request comes first there is no second one, and the first may stop anywhere behind the record. -/
def ServerAligned (s : End ServerPhase) (n : Nat) : Prop :=
  match s.phase with
  | .handleRequest =>
      MESSAGE_SIZE ≤ n ∧ n ≤ MAX_LINE ∧
        (n = MAX_LINE ∨ actsOn requestKinds (messageIn s.stream) = false)
  | .registerUser => n = USER_SIZE
  | .loginUser => n = USER_SIZE
  | .enterChat buf => AlignedPass chatKinds s.stream buf n
  | .closed => True

/-- The first `recv` of the client gets the whole result. -/
def ClientAligned (s : End ClientPhase) (n : Nat) : Prop :=
  match s.phase with
  | .loginUser => MESSAGE_SIZE ≤ n
  | .recvMsg buf => AlignedPass shownKinds s.stream buf n
  | .returned => True

instance (kinds : List MessageType) (stream buf : Bytes) (n : Nat) :
    Decidable (AlignedPass kinds stream buf n) := by
  unfold AlignedPass
  infer_instance

instance (s : End ServerPhase) (n : Nat) : Decidable (ServerAligned s n) := by
  unfold ServerAligned
  split <;> infer_instance

instance (s : End ClientPhase) (n : Nat) : Decidable (ClientAligned s n) := by
  unfold ClientAligned
  split <;> infer_instance

/-! ## Types of records -/

theorem intAt_mod (raw : Bytes) (k : Nat) : intAt raw k % 256 = byteAt raw k := by
  have hbyte : byteAt raw k < 256 := UInt8.toNat_lt _
  -- The lowest byte is the first one, also when the sign bit is set.
  simp only [intAt]
  split <;> omega

/-- No record with a zero in the first byte of its type is acted on. -/
theorem actsOn_of_zero {kinds : List MessageType} {raw : Bytes}
    (h : byteAt raw MSG_TYPE_OFFSET = 0) : actsOn kinds raw = false := by
  have hmod := intAt_mod raw MSG_TYPE_OFFSET
  rw [h] at hmod
  rw [actsOn, List.any_eq_false]
  intro t _ ht
  have hcode := MessageType.eq_code_of_ofCode (eq_of_beq ht)
  rw [hcode] at hmod
  -- All codes lie between 1 and 10, so their first byte is not zero.
  cases t <;> revert hmod <;> decide

theorem overwrite_zero (buf w : Bytes) : overwrite buf 0 w = w ++ buf.drop w.length := by
  simp [overwrite]

/-! ## Progress through the stream -/

/-- The records before `rest` have been acted on, and `k` bytes of the last of their frames are
still to be read. -/
structure Progress {φ : Type} (items : List Item) (s : End φ) (k : Nat) (rest : List Item) :
    Prop where
  acted : ∃ before, items = before ++ rest ∧ s.acted = before.flatMap Item.actions
  stream : s.stream = List.replicate k 0 ++ wire rest
  inFrame : k < MAX_LINE

section Progress

variable {φ ψ : Type} {items rest : List Item} {s : End φ} {k n : Nat}

theorem fits_raw {r : Bytes} (h : r ∈ rest.map Item.raw) : r.length ≤ MAX_LINE := by
  rcases List.mem_map.1 h with ⟨it, _, rfl⟩
  exact it.fits

theorem Progress.position (h : Progress items s k rest) :
    s.stream.length % MAX_LINE = k ∧ s.stream.length / MAX_LINE = rest.length := by
  have hfits : ∀ r ∈ rest.map Item.raw, r.length ≤ MAX_LINE := fun r => fits_raw
  rw [h.stream, wire, ← List.length_map Item.raw]
  exact length_rest hfits h.inFrame

theorem Progress.inOrder (h : Progress items s k rest) : InOrder items s := by
  rcases h.acted with ⟨before, rfl, hacted⟩
  have hcount : (before ++ rest).length - rest.length = before.length := by simp
  rw [InOrder, h.position.2, hacted, hcount, List.take_left]

/-- Reading inside a frame finds zeros and acts on nothing. -/
theorem Progress.tail (h : Progress items s k rest) (hn : n ≤ k) :
    s.stream.take n = List.replicate n 0 ∧
      ∀ phase : ψ, Progress items ⟨s.stream.drop n, phase, s.acted⟩ (k - n) rest := by
  -- Of the `k` zeros of the frame the first `n` are read.
  have hsplit : s.stream = List.replicate n 0 ++ (List.replicate (k - n) 0 ++ wire rest) := by
    rw [h.stream, ← List.append_assoc, ← List.replicate_add, Nat.add_sub_cancel' hn]
  refine ⟨?_, fun phase => ⟨h.acted, ?_, ?_⟩⟩
  · rw [hsplit]
    exact List.take_left' (by simp)
  · rw [hsplit]
    exact List.drop_left' (by simp)
  · exact Nat.lt_of_le_of_lt (Nat.sub_le _ _) h.inFrame

/-- Reading from the start of a frame finds its record. -/
theorem Progress.head {it : Item} (h : Progress items s 0 (it :: rest)) (hit : it.raw.length ≤ n)
    (hpos : 0 < n) (hn : n ≤ MAX_LINE) :
    s.stream.take n = it.raw ++ List.replicate (n - it.raw.length) 0 ∧
      ∀ phase : ψ, Progress items ⟨s.stream.drop n, phase, s.acted ++ it.actions⟩ (MAX_LINE - n)
        rest := by
  have hstream : s.stream = frames MAX_LINE 0 (it.raw :: rest.map Item.raw) := by
    rw [h.stream, wire]
    rfl
  rcases h.acted with ⟨before, hitems, hacted⟩
  refine ⟨?_, fun phase => ⟨⟨before ++ [it], ?_, ?_⟩, ?_, ?_⟩⟩
  · rw [hstream, take_frames hit hn]
  · rw [hitems]
    simp
  · rw [hacted]
    simp
  · rw [hstream, drop_frames hit hn]
    rfl
  · exact Nat.sub_lt (by decide) hpos

end Progress

/-! ## One pass of a receive loop -/

theorem recv_eq {stream buf buf' stream' : Bytes} {request n : Nat}
    (h : recv stream buf request n = .ok (buf', stream')) :
    0 < n ∧ n ≤ stream.length ∧ buf' = stream.take n ++ buf.drop n ∧ stream' = stream.drop n := by
  unfold recv at h
  split at h
  · cases h
  · rename_i hpossible
    split at h
    · cases h
    · cases h
      have hlen : n ≤ stream.length := by omega
      refine ⟨by omega, hlen, ?_, rfl⟩
      rw [overwrite_zero, List.length_take, Nat.min_eq_left hlen]

theorem recv_le {stream buf : Bytes} {request n : Nat} {r : Bytes × Bytes}
    (h : recv stream buf request n = .ok r) : n ≤ request := by
  unfold recv at h
  split at h
  · cases h
  · omega

theorem messageIn_append {raw rest : Bytes} (h : raw.length = MESSAGE_SIZE) :
    messageIn (raw ++ rest) = raw :=
  List.take_left' h

/-- Zeros up to and including the first byte of the type hide the record. -/
theorem actsOn_zeros {kinds : List MessageType} {n : Nat} (hn : MSG_TYPE_OFFSET < n)
    (rest : Bytes) : actsOn kinds (messageIn (List.replicate n 0 ++ rest)) = false := by
  apply actsOn_of_zero
  have hlt : MSG_TYPE_OFFSET < (List.replicate n (0 : UInt8)).length := by simpa using hn
  have hsize : MSG_TYPE_OFFSET < MESSAGE_SIZE := by decide
  simp [byteAt, messageIn, List.getD_eq_getElem?_getD, hsize, List.getElem?_append_left hlt, hn]

/-- Fewer zeros leave the type as it was. -/
theorem actsOn_short {kinds : List MessageType} {n : Nat} (hn : n ≤ MSG_TYPE_OFFSET)
    (buf : Bytes) :
    actsOn kinds (messageIn (List.replicate n 0 ++ buf.drop n)) =
      actsOn kinds (messageIn buf) := by
  -- The bytes from `n` on are those of the buffer.
  have hbyte : ∀ j, n ≤ j →
      byteAt (messageIn (List.replicate n 0 ++ buf.drop n)) j = byteAt (messageIn buf) j := by
    intro j hj
    have hright : (List.replicate n (0 : UInt8) ++ buf.drop n)[j]? = buf[j]? := by
      rw [List.getElem?_append_right (by simpa using hj), List.length_replicate,
        List.getElem?_drop, Nat.add_sub_cancel' hj]
    simp [byteAt, messageIn, List.getD_eq_getElem?_getD, List.getElem?_take, hright]
  have hint : intAt (messageIn (List.replicate n 0 ++ buf.drop n)) MSG_TYPE_OFFSET =
      intAt (messageIn buf) MSG_TYPE_OFFSET := by
    rw [intAt, intAt, hbyte _ hn, hbyte _ (by omega), hbyte _ (by omega), hbyte _ (by omega)]
  rw [actsOn, actsOn]
  simp only [wireType, hint]

/-- An aligned pass acts on the next record, or on nothing in the rest of a frame. -/
theorem pass_spec {φ ψ : Type} {items : List Item} {s : End φ} {k n request : Nat}
    {kinds : List MessageType} {msgs : List WireMessage} {buf buf' stream' : Bytes}
    (h : Progress items s k (msgs.map (messageItem kinds)))
    (haligned : AlignedPass kinds s.stream buf n)
    (hrecv : recv s.stream buf request n = .ok (buf', stream')) :
    ∃ (k' : Nat) (msgs' : List WireMessage), ∀ phase : ψ, Progress items
      ⟨stream', phase,
        s.acted ++ if actsOn kinds (messageIn buf') then [.message (messageIn buf')] else []⟩
      k' (msgs'.map (messageItem kinds)) := by
  rcases recv_eq hrecv with ⟨hpos, hlen, rfl, rfl⟩
  rw [AlignedPass, h.position.1] at haligned
  by_cases hk : k = 0
  · subst hk
    rw [if_pos rfl] at haligned
    cases msgs with
    | nil =>
        -- At the end of the stream there is nothing to read.
        have hnil : s.stream = [] := h.stream
        rw [hnil] at hlen
        exact absurd hlen (Nat.not_le.2 hpos)
    | cons m msgs =>
        have hsize : (messageItem kinds m).raw.length = MESSAGE_SIZE := m.property
        rcases h.head (ψ := ψ) (by rw [hsize]; exact haligned.1) hpos haligned.2 with
          ⟨htake, hprogress⟩
        have hmessage : messageIn (s.stream.take n ++ buf.drop n) = m.val := by
          rw [htake, List.append_assoc]
          exact messageIn_append hsize
        rw [hmessage]
        exact ⟨MAX_LINE - n, msgs, hprogress⟩
  · rw [if_neg hk] at haligned
    rcases h.tail (ψ := ψ) haligned.1 with ⟨htake, hprogress⟩
    have hnothing : actsOn kinds (messageIn (s.stream.take n ++ buf.drop n)) = false := by
      rw [htake]
      rcases Nat.lt_or_ge MSG_TYPE_OFFSET n with hn | hn
      · exact actsOn_zeros hn _
      · rw [actsOn_short hn]
        rcases haligned.2 with hlt | hacts
        · exact absurd hlt (Nat.not_lt.2 hn)
        · exact hacts
    rw [hnothing]
    exact ⟨k - n, msgs, by simpa using hprogress⟩

/-! ## Whole runs -/

/-- What the server has still to read, by phase. -/
def ServerInv (c : ClientRecords) (s : End ServerPhase) : Prop :=
  match s.phase with
  | .handleRequest => Progress c.items s 0 c.items
  | .registerUser => Progress c.items s 0 (c.items.drop 1)
  | .loginUser => Progress c.items s 0 (c.items.drop 1)
  | .enterChat _ =>
      ∃ (k : Nat) (msgs : List WireMessage), Progress c.items s k (msgs.map (messageItem chatKinds))
  | .closed => ∃ k rest, Progress c.items s k rest

theorem ServerInv.inOrder {c : ClientRecords} {s : End ServerPhase} (h : ServerInv c s) :
    InOrder c.items s := by
  unfold ServerInv at h
  split at h
  · exact h.inOrder
  · exact h.inOrder
  · exact h.inOrder
  · rcases h with ⟨k, msgs, h⟩
    exact h.inOrder
  · rcases h with ⟨k, rest, h⟩
    exact h.inOrder

/-- The user record read in a pass of exactly its size. -/
theorem user_spec {φ ψ : Type} {items rest : List Item} {s : End φ} {u : WireUser}
    {stack buf stream : Bytes} (h : Progress items s 0 (userItem u :: rest))
    (hrecv : recv s.stream stack USER_SIZE USER_SIZE = .ok (buf, stream)) (phase : ψ) :
    Progress items ⟨stream, phase, s.acted ++ [.user (userIn buf)]⟩ (MAX_LINE - USER_SIZE)
      rest := by
  rcases recv_eq hrecv with ⟨hpos, _, rfl, rfl⟩
  have hsize : (userItem u).raw.length = USER_SIZE := u.property
  rcases h.head (ψ := ψ) (le_of_eq hsize) hpos (by decide) with ⟨htake, hprogress⟩
  -- The rest of the uninitialised buffer lies behind the record.
  have huser : userIn (s.stream.take USER_SIZE ++ stack.drop USER_SIZE) = u.val := by
    rw [htake, List.append_assoc]
    exact List.take_left' hsize
  rw [huser]
  exact hprogress phase

section ServerSteps

variable {stack stream : Bytes} {c : ClientRecords} {acted : List Action} {t : End ServerPhase}
  {n : Nat}

/-- The first record, for which `handleRequest` reads. -/
theorem serverInv_handleRequest (hs : ServerInv c ⟨stream, .handleRequest, acted⟩)
    (haligned : ServerAligned ⟨stream, .handleRequest, acted⟩ n)
    (hstep : serverEndStep stack ⟨stream, .handleRequest, acted⟩ n = .ok t) : ServerInv c t := by
  rcases haligned with ⟨hmin, hmax, hwhole⟩
  simp only [serverEndStep] at hstep
  split at hstep
  · cases hstep
  · rename_i buf stream' hrecv
    rcases recv_eq hrecv with ⟨hpos, _, hbuf, rfl⟩
    have hsize : (helloItem c.hello).raw.length = MESSAGE_SIZE := c.hello.property
    have hprogress : Progress c.items (⟨stream, .handleRequest, acted⟩ : End ServerPhase) 0
        (helloItem c.hello :: c.items.drop 1) := hs
    rcases hprogress.head (ψ := ServerPhase) (hsize.trans_le hmin) hpos hmax with
      ⟨htake, hnext⟩
    have hmessage : messageIn buf = c.hello.val := by
      rw [hbuf, htake, List.append_assoc]
      exact messageIn_append hsize
    have hfirst : messageIn stream = c.hello.val := by
      have hhead := (hprogress.head (ψ := ServerPhase) hsize.le (by decide) (by decide)).1
      rw [hsize, Nat.sub_self, List.replicate_zero, List.append_nil] at hhead
      exact hhead
    rw [hfirst] at hwhole
    -- Behind a request the next `recv` has to start at the user record.
    have hframe : actsOn requestKinds c.hello.val = true →
        (helloItem c.hello).actions = [.request c.hello.val] ∧ n = MAX_LINE := by
      intro hacts
      refine ⟨if_pos hacts, hwhole.resolve_right ?_⟩
      rw [hacts]
      exact Bool.noConfusion
    rw [hmessage] at hstep
    split at hstep
    · cases hstep
      rcases hframe (by simp [actsOn, requestKinds, *]) with ⟨hacts, rfl⟩
      rw [hacts] at hnext
      exact hnext _
    · cases hstep
      rcases hframe (by simp [actsOn, requestKinds, *]) with ⟨hacts, rfl⟩
      rw [hacts] at hnext
      exact hnext _
    · rename_i hregister hlogin
      cases hstep
      have hnotRegister : ¬ wireType c.hello.val = some .register := hregister
      have hnotLogin : ¬ wireType c.hello.val = some .login := hlogin
      have hacts : (helloItem c.hello).actions = [] := by
        simp [helloItem, actsOn, requestKinds, hnotRegister, hnotLogin]
      rw [hacts, List.append_nil] at hnext
      exact ⟨_, _, hnext _⟩

/-- A pass of `enterChat`, which ends with an EXIT request. -/
theorem serverInv_enterChat {buf : Bytes} (hs : ServerInv c ⟨stream, .enterChat buf, acted⟩)
    (haligned : ServerAligned ⟨stream, .enterChat buf, acted⟩ n)
    (hstep : serverEndStep stack ⟨stream, .enterChat buf, acted⟩ n = .ok t) : ServerInv c t := by
  rcases hs with ⟨k, msgs, hprogress⟩
  simp only [serverEndStep] at hstep
  split at hstep
  · cases hstep
  · rename_i buf' stream' hrecv
    rcases pass_spec (ψ := ServerPhase) hprogress haligned hrecv with ⟨k', msgs', hnext⟩
    have hphase : ∀ acted', (∀ phase : ServerPhase, Progress c.items ⟨stream', phase, acted'⟩ k'
        (msgs'.map (messageItem chatKinds))) →
        ServerInv c ⟨stream', if wireType (messageIn buf') = some .exit then .closed
          else .enterChat buf', acted'⟩ := by
      intro acted' hnext'
      by_cases hexit : wireType (messageIn buf') = some .exit
      · rw [if_pos hexit]
        exact ⟨k', _, hnext' _⟩
      · rw [if_neg hexit]
        exact ⟨k', msgs', hnext' _⟩
    split at hstep
    · rename_i hacts
      rw [if_pos hacts] at hnext
      cases hstep
      exact hphase _ hnext
    · rename_i hacts
      rw [if_neg hacts, List.append_nil] at hnext
      cases hstep
      exact hphase _ hnext

end ServerSteps

theorem serverInv_step {stack : Bytes} {c : ClientRecords} {s t : End ServerPhase} {n : Nat}
    (hs : ServerInv c s) (haligned : ServerAligned s n) (hstep : serverEndStep stack s n = .ok t) :
    ServerInv c t := by
  rcases s with ⟨stream, phase, acted⟩
  cases phase with
  | handleRequest => exact serverInv_handleRequest hs haligned hstep
  | registerUser =>
      have hn : n = USER_SIZE := haligned
      subst hn
      simp only [serverEndStep] at hstep
      split at hstep
      · cases hstep
      · cases hstep
        exact ⟨_, _, user_spec hs ‹_› _⟩
  | loginUser =>
      have hn : n = USER_SIZE := haligned
      subst hn
      simp only [serverEndStep] at hstep
      split at hstep
      · cases hstep
      · cases hstep
        exact ⟨_, c.messages, user_spec hs ‹_› _⟩
  | enterChat buf => exact serverInv_enterChat hs haligned hstep
  | closed => cases hstep

/-- What the client has still to read, by phase. -/
def ClientInv (d : ServerRecords) (s : End ClientPhase) : Prop :=
  match s.phase with
  | .loginUser => Progress d.items s 0 d.items
  | .recvMsg _ =>
      ∃ (k : Nat) (msgs : List WireMessage),
        Progress d.items s k (msgs.map (messageItem shownKinds))
  | .returned => ∃ k rest, Progress d.items s k rest

theorem ClientInv.inOrder {d : ServerRecords} {s : End ClientPhase} (h : ClientInv d s) :
    InOrder d.items s := by
  unfold ClientInv at h
  split at h
  · exact h.inOrder
  · rcases h with ⟨k, msgs, h⟩
    exact h.inOrder
  · rcases h with ⟨k, rest, h⟩
    exact h.inOrder

theorem clientInv_step {stack : Bytes} {d : ServerRecords} {s t : End ClientPhase} {n : Nat}
    (hs : ClientInv d s) (haligned : ClientAligned s n) (hstep : clientEndStep stack s n = .ok t) :
    ClientInv d t := by
  rcases s with ⟨stream, phase, acted⟩
  cases phase with
  | loginUser =>
      simp only [clientEndStep] at hstep
      split at hstep
      · cases hstep
      · rename_i buf stream' hrecv
        have hmax : n ≤ MAX_LINE := recv_le hrecv
        rcases recv_eq hrecv with ⟨hpos, _, hbuf, rfl⟩
        have hsize : (resultItem d.result).raw.length = MESSAGE_SIZE := d.result.property
        have hprogress : Progress d.items (⟨stream, .loginUser, acted⟩ : End ClientPhase) 0
            (resultItem d.result :: d.messages.map (messageItem shownKinds)) := hs
        have hle : (resultItem d.result).raw.length ≤ n := by
          rw [hsize]
          exact haligned
        rcases hprogress.head (ψ := ClientPhase) hle hpos hmax with ⟨htake, hnext⟩
        have hmessage : messageIn buf = d.result.val := by
          rw [hbuf, htake, List.append_assoc]
          exact messageIn_append hsize
        rw [hmessage] at hstep
        cases hstep
        by_cases hret : intAt d.result.val MSG_RET_OFFSET = StateRet.success.code
        · rw [if_pos hret]
          exact ⟨_, d.messages, hnext _⟩
        · rw [if_neg hret]
          exact ⟨_, _, hnext _⟩
  | recvMsg buf =>
      rcases hs with ⟨k, msgs, hprogress⟩
      simp only [clientEndStep] at hstep
      split at hstep
      · cases hstep
      · rename_i buf' stream' hrecv
        rcases pass_spec (ψ := ClientPhase) hprogress haligned hrecv with ⟨k', msgs', hnext⟩
        split at hstep
        · rename_i hacts
          rw [if_pos hacts] at hnext
          cases hstep
          exact ⟨k', msgs', hnext _⟩
        · rename_i hacts
          rw [if_neg hacts, List.append_nil] at hnext
          cases hstep
          exact ⟨k', msgs', hnext _⟩
  | returned => cases hstep

/-- Nothing has been read yet. -/
theorem progress_init {φ : Type} (items : List Item) (phase : φ) :
    Progress items ⟨wire items, phase, []⟩ 0 items :=
  ⟨⟨[], rfl, rfl⟩, rfl, by decide⟩

/-- In every aligned run, each end has acted in every state on exactly the records that it has
begun to read. -/
theorem records_in_order (stack : Bytes) (c : ClientRecords) (d : ServerRecords) (ns : List Nat) :
    ((serverEnd stack c).EveryStep ServerAligned (serverEnd stack c).init ns →
        (serverEnd stack c).EveryState (InOrder c.items) (serverEnd stack c).init ns) ∧
      ((clientEnd stack d).EveryStep ClientAligned (clientEnd stack d).init ns →
        (clientEnd stack d).EveryState (InOrder d.items) (clientEnd stack d).init ns) := by
  have hserver : ServerInv c (serverEnd stack c).init := progress_init c.items _
  have hclient : ClientInv d (clientEnd stack d).init := progress_init d.items _
  constructor
  · intro h
    exact (serverEnd stack c).everyState_of_everyStep
      (fun s n t hs haligned => serverInv_step hs haligned) (fun s hs => hs.inOrder) hserver h
  · intro h
    exact (clientEnd stack d).everyState_of_everyStep
      (fun s n t hs haligned => clientInv_step hs haligned) (fun s hs => hs.inOrder) hclient h

/-- A record whose only filled field is its type. -/
def wireMessage (t : UInt8) : WireMessage :=
  ⟨List.replicate MSG_TYPE_OFFSET 0 ++ t :: List.replicate 99 0, by simp⟩

def wireUser : WireUser :=
  ⟨List.replicate USER_SIZE 1, List.length_replicate⟩

/-- A LOGIN request and its user record. -/
def oneLogin : ClientRecords :=
  ⟨wireMessage 2, wireUser, []⟩

/-- The result and one message. -/
def oneReply : ServerRecords :=
  ⟨wireMessage 9, [wireMessage 5]⟩

theorem one_login_in_order :
    (serverEnd zeros oneLogin).EveryState (InOrder oneLogin.items)
        (serverEnd zeros oneLogin).init [8192, 84, 8108] ∧
      (clientEnd zeros oneReply).EveryState (InOrder oneReply.items)
        (clientEnd zeros oneReply).init [2148] := by
  rcases records_in_order zeros oneLogin oneReply [8192, 84, 8108] with ⟨hserver, _⟩
  rcases records_in_order zeros oneLogin oneReply [2148] with ⟨_, hclient⟩
  exact ⟨hserver (by decide +kernel), hclient (by decide +kernel)⟩

/-- `recv` returns the LOGIN request alone, without the rest of its frame.  The next `recv` finds
zeros where the user record is expected. -/
theorem short_read_loses_user :
    ¬ ∀ ns, (serverEnd zeros oneLogin).EveryState (InOrder oneLogin.items)
      (serverEnd zeros oneLogin).init ns := by
  intro h
  -- Two records have been acted on, but only one has been begun.
  have hcount : ∀ s : End ServerPhase, InOrder oneLogin.items s →
      s.acted.length = ((oneLogin.items.take (oneLogin.items.length -
        s.stream.length / MAX_LINE)).flatMap Item.actions).length := by
    intro s hs
    rw [← hs]
  have hrun := (serverEnd zeros oneLogin).everyState_mono hcount (h [2148, 84])
  revert hrun
  decide +kernel

end ChatRoom
end LinuxLearn
