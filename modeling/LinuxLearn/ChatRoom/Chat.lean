import LinuxLearn.ChatRoom.OnlineList

/-!
# Chat — the chat requests of a connection

`groupChat`, `personalChat`, `viewUserList` and `viewRecords` of the server's `chat.c`.  They read
the online list and send records; the database is the environment, and its replies are arguments.
The SQL texts are left out here, and with them the array that `sprintf` writes them into; `Database`
has both for the chat messages, `Queries` the texts of all handlers.
-/

namespace LinuxLearn
namespace ChatRoom

open Lib

/-- A record sent on a socket. -/
structure Sent where
  sockfd : Int
  message : Message
  deriving DecidableEq, Repr

/-- `outOfBounds` is a write outside an array.  `impossible` is no fault of the program: the
environment offers an input that the state excludes. -/
inductive Fault
  | pointer (f : PointerFault)
  | outOfBounds
  | impossible
  deriving DecidableEq, Repr

/-! ## Replies of the database -/

/-- The reply to an `insert` statement. -/
inductive InsertReply
  | cannotOpen
  | cannotPrepare
  | inserted
  deriving DecidableEq, Repr

def InsertReply.ret : InsertReply → StateRet
  | cannotOpen => .failed
  | cannotPrepare => .failed
  | inserted => .success

/-- The columns of a chat record that are shown. -/
structure Record where
  sendName : CString
  content : CString
  msgTime : CString
  deriving DecidableEq, Repr

inductive RecordsReply
  | cannotOpen
  | cannotSelect
  | table (rows : List Record)
  deriving DecidableEq, Repr

/-! ## The requests -/

/-- The fields that every reply takes over from the request. -/
def replyTo (msg : Message) : Message :=
  { Message.zero with
    sendName := msg.sendName
    recvName := msg.recvName
    msgType := msg.msgType }

/-- The reply for a request that was not carried out. -/
def refusal (message : Message) (ret : StateRet) : Message :=
  { message with
    msgType := MessageType.result.code
    content := stateMsg ret }

def groupChat (st : Store) (userList : Ref) (msg : Message) (sockfd : Int) (db : InsertReply) :
    Except Fault (StateRet × List Sent) :=
  let message := replyTo msg
  match userList with
  | none => .error (.pointer .nullDereference)
  | some p =>
      match st.deref p with
      | none => .error (.pointer .useAfterFree)
      | some c =>
          -- A list of one node is taken to be the sender alone.
          if c.next = none then
            .ok (.allNotOnline, [⟨sockfd, refusal message .allNotOnline⟩])
          else
            let message :=
              { message with
                recvName := []
                content := msg.content
                msgTime := msg.msgTime }
            match st.collect st.fuel userList with
            | .error e => .error (.pointer e)
            | .ok users =>
                -- The records go out before the database is asked.
                let others := users.filter fun user => !hasName message.sendName user
                .ok (db.ret, others.map fun user => ⟨user.sockfd, message⟩)

def personalChat (st : Store) (userList : Ref) (msg : Message) (sockfd : Int) (db : InsertReply) :
    Except Fault (StateRet × List Sent) :=
  let message := replyTo msg
  if msg.sendName = msg.recvName then
    .ok (.messageSelf, [⟨sockfd, refusal message .messageSelf⟩])
  else
    -- The receiver is looked up by name; the sender need not be on the list.
    match st.search (hasName msg.recvName) st.fuel userList userList with
    | .error e => .error (.pointer e)
    | .ok (_, none) => .ok (.idNotOnline, [⟨sockfd, refusal message .idNotOnline⟩])
    | .ok (_, some p) =>
        match st.deref p with
        | none => .error (.pointer .useAfterFree)
        | some c =>
            let message :=
              { message with
                content := msg.content
                msgTime := msg.msgTime }
            .ok (db.ret, [⟨c.data.sockfd, message⟩])

abbrev tab : UInt8 := 9
abbrev newline : UInt8 := 10

def viewUserList (st : Store) (userList : Ref) (msg : Message) (sockfd : Int) :
    Except Fault (StateRet × List Sent) :=
  let message := replyTo msg
  match userList with
  -- An empty list is possible here: the sender need not be on it.
  | none => .ok (.allNotOnline, [⟨sockfd, refusal message .allNotOnline⟩])
  | some _ =>
      match st.collect st.fuel userList with
      | .error e => .error (.pointer e)
      | .ok users =>
          let content := users.flatMap fun user => tab :: user.userName
          .ok (.success, [⟨sockfd, { message with content := content }⟩])

/-- `"%s\\t%s\\n\\t%s\\n\\n"` -/
def Record.text (r : Record) : CString :=
  r.sendName ++ tab :: r.msgTime ++ newline :: tab :: r.content ++ [newline, newline]

/-- The name under which group messages are asked for. -/
def allUsers : CString :=
  "all".toUTF8.toList

def viewRecords (msg : Message) (sockfd : Int) (db : RecordsReply) :
    Except Fault (StateRet × List Sent) :=
  let message :=
    { replyTo msg with recvName := if msg.recvName = allUsers then [] else msg.recvName }
  match db with
  | .cannotOpen => .ok (.failed, [⟨sockfd, refusal message .failed⟩])
  | .cannotSelect => .ok (.failed, [⟨sockfd, refusal message .failed⟩])
  | .table rows =>
      let content := rows.flatMap Record.text
      -- The last byte is cut off, also when there is none.
      if content = [] then .error .outOfBounds
      else .ok (.success, [⟨sockfd, { message with content := content.dropLast }⟩])

/-! ## The switch of `enterChat` -/

/-- The replies of the database to one chat request. -/
structure ChatReplies where
  insert : InsertReply
  records : RecordsReply
  deriving DecidableEq, Repr

/-- What a request leads to: the store, the records sent, and whether the connection stays. -/
structure Outcome where
  store : Store
  sent : List Sent
  stays : Bool
  deriving DecidableEq, Repr

def replied (st : Store) : Except Fault (StateRet × List Sent) → Except Fault Outcome
  | .error e => .error e
  | .ok (_, sent) => .ok ⟨st, sent, true⟩

/-- One pass of the loop of `enterChat`, for the record in `message`. -/
def serveRequest (st : Store) (userList : Ref) (message : Message) (sockfd : Int)
    (db : ChatReplies) : Except Fault Outcome :=
  match MessageType.ofCode message.msgType with
  | some .groupChat => replied st (groupChat st userList message sockfd db.insert)
  | some .personalChat => replied st (personalChat st userList message sockfd db.insert)
  | some .viewUserList => replied st (viewUserList st userList message sockfd)
  | some .viewRecords => replied st (viewRecords message sockfd db.records)
  | some .exit =>
      -- The name to delete is the one in the message.
      match deleteNode st userList { User.zero with userName := message.sendName } with
      | .error e => .error (.pointer e)
      | .ok st => .ok ⟨st, [], false⟩
  | _ => .ok ⟨st, [], true⟩

theorem replied_ok {st : Store} {r : Except Fault (StateRet × List Sent)} {o : Outcome}
    (h : replied st r = .ok o) : o.store = st ∧ o.stays = true := by
  cases r with
  | error e => cases h
  | ok r =>
      cases h
      exact ⟨rfl, rfl⟩

/-- Only an EXIT request changes the list or ends the connection. -/
theorem serveRequest_keeps {st : Store} {userList : Ref} {message : Message} {sockfd : Int}
    {db : ChatReplies} {o : Outcome} (h : serveRequest st userList message sockfd db = .ok o)
    (hexit : MessageType.ofCode message.msgType ≠ some .exit) :
    o.store = st ∧ o.stays = true := by
  -- The first four requests only read the list, the others are ignored.
  unfold serveRequest at h
  split at h
  · exact replied_ok h
  · exact replied_ok h
  · exact replied_ok h
  · exact replied_ok h
  · exact absurd ‹_› hexit
  · cases h
    exact ⟨rfl, rfl⟩

theorem serveRequest_exit {st st' : Store} {userList : Ref} {message : Message} {sockfd : Int}
    {db : ChatReplies} {o : Outcome} (h : serveRequest st userList message sockfd db = .ok o)
    (hexit : MessageType.ofCode message.msgType = some .exit)
    (hdelete : deleteNode st userList { User.zero with userName := message.sendName } = .ok st') :
    o = ⟨st', [], false⟩ := by
  simp only [serveRequest, hexit, hdelete] at h
  cases h
  rfl

end ChatRoom
end LinuxLearn
