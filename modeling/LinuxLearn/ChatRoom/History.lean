import LinuxLearn.Lib.Machine
import LinuxLearn.ChatRoom.Queries
import LinuxLearn.ChatRoom.Routing

/-!
# History — the chat history and what was said

The table `Message` over a history of chat requests, next to a log of the messages that were
delivered.  Group messages and personal messages share the table and are told apart by the column
`recvName`, which is empty for a group message, and a request for the records tells them apart by
the name `all`.  A user may be registered with an empty name or as `all`, and blurs the difference;
`history_exact` says that the records are right as long as no such user is involved.  The arrays
for the SQL texts are taken to be large enough.
-/

namespace LinuxLearn
namespace ChatRoom

open Lib Lib.Sql

/-! ## The table -/

/-- The columns of the table `Message`, which are those of its insertions. -/
def messageColumns : List Text :=
  [ascii "msgType", ascii "sendName", ascii "recvName", ascii "content", ascii "msgTime"]

/-- The rows are the insertions that made them. -/
def messageTable : Table Insert where
  name := ascii "Message"
  columns := messageColumns
  column := fun c q => (q.value c).getD []

/-- The insertion of a row. -/
def MessageRow.record (row : MessageRow) : Insert where
  table := ascii "Message"
  columns := messageColumns
  values := [decimal row.msgType, row.sendName, row.recvName, row.content, row.msgTime]

section Columns

variable (row : MessageRow)

theorem column_sendName : messageTable.column (ascii "sendName") row.record = row.sendName := rfl

theorem column_recvName : messageTable.column (ascii "recvName") row.record = row.recvName := rfl

end Columns

/-! ## Requests and their log -/

/-- A request in `enterChat` and the online list that it meets. -/
structure Served where
  store : Store
  userList : Ref
  msg : Message
  sockfd : Int
  deriving DecidableEq, Repr

/-- The chat request that a message type asks for. -/
def chatKind (msg : Message) : Option ChatKind :=
  match MessageType.ofCode msg.msgType with
  | some .groupChat => some .group
  | some .personalChat => some .personal
  | _ => none

/-- A message that was delivered, as its receivers got it. -/
structure Said where
  kind : ChatKind
  message : Message
  deriving DecidableEq, Repr

structure Room where
  table : List Insert
  said : List Said
  deriving DecidableEq, Repr

def Room.empty : Room :=
  ⟨[], []⟩

/-- The message was sent to somebody. -/
def Delivery.carries (d : Delivery) (message : Message) : Bool :=
  d.sent.any fun s => s.message == message

/-- The insertion that the database makes of the text for a message. -/
def insertion (message : Message) : Option Insert :=
  prepareInsert messageTable.name messageTable.columns (messageText message)

def insertReply (message : Message) : InsertReply :=
  if (insertion message).isSome then .inserted else .cannotPrepare

/-- What a chat request leaves in the table and in the log. -/
def Room.serveChat (s : Room) (kind : ChatKind) (r : Served) : Except Fault Room :=
  let message := kind.message r.msg
  -- An array that is large enough for the text.
  let size := (messageText message).length + 1
  (kind.serve size r.store r.userList r.msg r.sockfd (insertReply message)).map fun d =>
    { table := if d.stored.isSome then s.table ++ (insertion message).toList else s.table
      said := if d.carries message then s.said ++ [⟨kind, message⟩] else s.said }

/-- One request; the others do not touch the table. -/
def Room.step (s : Room) (r : Served) : Except Fault Room :=
  match chatKind r.msg with
  | none => .ok s
  | some kind => s.serveChat kind r

def history : Machine Room Served Fault where
  init := Room.empty
  step := Room.step

/-! ## What the records should be -/

def Said.isGroup (x : Said) : Bool :=
  x.kind == .group

/-- A personal message from one of the two to the other. -/
def Said.between (a b : CString) (x : Said) : Bool :=
  x.kind == .personal &&
    (x.message.sendName == a && x.message.recvName == b ||
      x.message.sendName == b && x.message.recvName == a)

/-- The query selects the records of the messages asked for and no others. -/
def Room.Selects (s : Room) (msg : Message) (asked : Said → Bool) : Prop :=
  ∃ q, prepareSelect messageTable (recordsText msg) = some q ∧
    q.rows messageTable s.table = (s.said.filter asked).map fun x => x.message.row.record

/-- A request for the records with another of the registered users. -/
def WithUser (users : List CString) (msg : Message) : Prop :=
  msg.recvName ∈ users ∧ msg.recvName ≠ msg.sendName

/-- The request is answered right, whichever of the two it means.  With a user who is registered as
`all` it means both. -/
structure Room.Exact (users : List CString) (s : Room) (msg : Message) : Prop where
  group : msg.recvName = allUsers → s.Selects msg Said.isGroup
  pair : WithUser users msg → s.Selects msg (Said.between msg.sendName msg.recvName)

/-! ## The texts -/

/-- The request as one that leads to SQL statements. -/
def ChatKind.request : ChatKind → Message → Request
  | .group => .groupChat
  | .personal => .personalChat

theorem insertion_eq {message : Message} {n : Nat} (htype : message.msgType = n)
    (h : lex (messageText message) = messageTokens message) :
    insertion message = some message.row.record := by
  have hint : intTokens message.msgType = [.word (decimal message.msgType)] := by
    rw [htype]
    rfl
  rw [insertion, prepareInsert, h, messageTokens, hint]
  rfl

def groupCondition : Condition :=
  [[(.column (ascii "recvName"), .value [])]]

def pairCondition (a b : CString) : Condition :=
  [[(.column (ascii "sendName"), .value a), (.column (ascii "recvName"), .value b)],
    [(.column (ascii "sendName"), .value b), (.column (ascii "recvName"), .value a)]]

theorem prepareSelect_group {msg : Message} (h : recordsName msg = []) :
    prepareSelect messageTable (recordsText msg) =
      some ⟨ascii "Message", groupCondition, some (ascii "msgTime")⟩ := by
  rw [prepareSelect, lex_recordsText_group h, recordsTokens, if_pos h]
  rfl

theorem prepareSelect_pair {msg : Message} (h : recordsName msg ≠ [])
    (hlex : lex (recordsText msg) = recordsTokens msg) :
    prepareSelect messageTable (recordsText msg) =
      some ⟨ascii "Message", pairCondition msg.sendName (recordsName msg),
        some (ascii "msgTime")⟩ := by
  rw [prepareSelect, hlex, recordsTokens, if_neg h]
  rfl

/-! ## What a request delivers -/

section Serve

variable {size : Nat} {st : Store} {userList : Ref} {msg : Message} {sockfd : Int}
  {db : InsertReply} {d : Delivery}

/-- Only the sender hears of a request that is refused. -/
def Refused (msg : Message) (sockfd : Int) (d : Delivery) : Prop :=
  ∃ ret, d = ⟨ret, [⟨sockfd, refusal (replyTo msg) ret⟩], none⟩

theorem collect_ne_nil {n r : Nat} {users : List User}
    (h : st.collect n (some r) = .ok users) : users ≠ [] := by
  rintro rfl
  cases n with
  | zero => cases h
  | succ n =>
      rw [NodeStore.collect] at h
      split at h
      · cases h
      · cases hrest : st.collect n _ with
        | error e =>
            rw [hrest] at h
            cases h
        | ok users =>
            rw [hrest] at h
            cases h

theorem groupChatStored_cases (hfits : (messageText (groupMessage msg)).length < size)
    (h : groupChatStored size st userList msg sockfd db = .ok d) :
    Refused msg sockfd d ∨
      ∃ users, st.collect st.fuel userList = .ok users ∧ 2 ≤ users.length ∧
        d = ⟨db.ret, (users.filter fun user => !hasName msg.sendName user).map fun user =>
          ⟨user.sockfd, groupMessage msg⟩, db.stored (groupMessage msg).row⟩ := by
  have hinsert := insertMessage_fits hfits db
  cases userList with
  | none => cases h
  | some p =>
      cases hcell : st.deref p with
      | none => simp [groupChatStored, hcell] at h
      | some c =>
          cases hnext : c.next with
          | none =>
              left
              refine ⟨.allNotOnline, ?_⟩
              simpa [groupChatStored, hcell, hnext, eq_comm] using h
          | some q =>
              right
              -- The loop visits the first node and at least one more.
              cases hrest : st.collect st.cells.length (some q) with
              | error e =>
                  have hcollect : st.collect st.fuel (some p) = .error e := by
                    simp [NodeStore.collect, NodeStore.fuel, hcell, hnext, hrest, Except.map]
                  simp [groupChatStored, hcell, hnext, hcollect] at h
              | ok users =>
                  have hcollect : st.collect st.fuel (some p) = .ok (c.data :: users) := by
                    simp [NodeStore.collect, NodeStore.fuel, hcell, hnext, hrest, Except.map]
                  have hpos := List.length_pos_of_ne_nil (collect_ne_nil hrest)
                  refine ⟨c.data :: users, hcollect, Nat.succ_le_succ hpos, ?_⟩
                  rw [groupMessage] at hinsert
                  simp only [groupChatStored, hcell, hnext, hcollect, hinsert] at h
                  cases h
                  rfl

theorem personalChatStored_cases (hfits : (messageText (personalMessage msg)).length < size)
    (h : personalChatStored size st userList msg sockfd db = .ok d) :
    Refused msg sockfd d ∨
      msg.sendName ≠ msg.recvName ∧
        (∃ prev p, st.search (hasName msg.recvName) st.fuel userList userList =
          .ok (prev, some p)) ∧
        ∃ user : User, d = ⟨db.ret, [⟨user.sockfd, personalMessage msg⟩],
          db.stored (personalMessage msg).row⟩ := by
  have hinsert := insertMessage_fits hfits db
  by_cases hself : msg.sendName = msg.recvName
  · left
    refine ⟨.messageSelf, ?_⟩
    simpa [personalChatStored, hself, eq_comm] using h
  · cases hsearch : st.search (hasName msg.recvName) st.fuel userList userList with
    | error e => simp [personalChatStored, hself, hsearch] at h
    | ok found =>
        rcases found with ⟨pre, p⟩
        cases p with
        | none =>
            left
            refine ⟨.idNotOnline, ?_⟩
            simpa [personalChatStored, hself, hsearch, eq_comm] using h
        | some p =>
            right
            cases hcell : st.deref p with
            | none => simp [personalChatStored, hself, hsearch, hcell] at h
            | some c =>
                refine ⟨hself, ⟨pre, p, rfl⟩, c.data, ?_⟩
                rw [personalMessage] at hinsert
                simp only [personalChatStored, hself, if_false, hsearch, hcell, hinsert] at h
                cases h
                rfl

end Serve

/-! ## Steps -/

/-- The request is not refused, and comes to its insertion. -/
def Served.Inserts (r : Served) : ChatKind → Prop
  | .group => ∃ users, r.store.collect r.store.fuel r.userList = .ok users ∧ 2 ≤ users.length
  | .personal =>
      r.msg.sendName ≠ r.msg.recvName ∧
        ∃ prev p, r.store.search (hasName r.msg.recvName) r.store.fuel r.userList r.userList =
          .ok (prev, some p)

/-- If the request comes to its insertion, it is without empty names and quotes, and has somebody to
hear it. -/
structure Served.Ordinary (r : Served) : Prop where
  quoteFree : ∀ kind, chatKind r.msg = some kind → r.Inserts kind →
    ∀ s ∈ (kind.request r.msg).userStrings, quote ∉ s
  named : chatKind r.msg = some .personal → r.Inserts .personal → r.msg.recvName ≠ []
  heard : chatKind r.msg = some .group →
    ∀ users, r.store.collect r.store.fuel r.userList = .ok users → 2 ≤ users.length →
      ∃ user ∈ users, user.userName ≠ r.msg.sendName

theorem msgType_of_chatKind {msg : Message} {kind : ChatKind} (h : chatKind msg = some kind) :
    msg.msgType = 6 ∨ msg.msgType = 7 := by
  unfold chatKind at h
  split at h
  · exact Or.inl (MessageType.eq_code_of_ofCode ‹_›)
  · exact Or.inr (MessageType.eq_code_of_ofCode ‹_›)
  · cases h

theorem message_msgType (kind : ChatKind) (msg : Message) :
    (kind.message msg).msgType = msg.msgType := by
  cases kind <;> rfl

theorem not_carries_of_refused {msg : Message} {kind : ChatKind} {sockfd : Int} {d : Delivery}
    (hkind : chatKind msg = some kind) (h : Refused msg sockfd d) :
    d.carries (kind.message msg) = false := by
  rcases h with ⟨ret, rfl⟩
  have hne : refusal (replyTo msg) ret ≠ kind.message msg := by
    intro heq
    have hresult : MessageType.result.code = msg.msgType :=
      (congrArg Message.msgType heq).trans (message_msgType kind msg)
    have hcode : MessageType.result.code = 9 := rfl
    rcases msgType_of_chatKind hkind with hgroup | hpersonal <;> omega
  simp [Delivery.carries, hne]

theorem insertion_of_ordinary {r : Served} {kind : ChatKind} (hr : r.Ordinary)
    (hkind : chatKind r.msg = some kind) (hinserts : r.Inserts kind) :
    insertion (kind.message r.msg) = some (kind.message r.msg).row.record := by
  have hlex : lex (messageText (kind.message r.msg)) = messageTokens (kind.message r.msg) := by
    have hlexed := (statements_lexed_iff (kind.request r.msg)).2 (hr.quoteFree kind hkind hinserts)
    cases kind with
    | group => exact hlexed _ List.mem_cons_self
    | personal =>
        apply hlexed (messageText (personalMessage r.msg), messageTokens (personalMessage r.msg))
        simp [ChatKind.request, Request.statements, hinserts.1]
  have htype := message_msgType kind r.msg
  rcases msgType_of_chatKind hkind with h | h
  · exact insertion_eq (n := 6) (htype.trans h) hlex
  · exact insertion_eq (n := 7) (htype.trans h) hlex

/-- What the database stores and the log receives, when the insertion can be made. -/
theorem serveChat_delivered {s : Room} {kind : ChatKind} {r : Served} (users : List User)
    (hinsert : insertion (kind.message r.msg) = some (kind.message r.msg).row.record)
    (husers : users ≠ [])
    (h : kind.serve ((messageText (kind.message r.msg)).length + 1) r.store r.userList r.msg
        r.sockfd (insertReply (kind.message r.msg)) =
      .ok ⟨(insertReply (kind.message r.msg)).ret,
        users.map fun user => ⟨user.sockfd, kind.message r.msg⟩,
        (insertReply (kind.message r.msg)).stored (kind.message r.msg).row⟩) :
    s.serveChat kind r = .ok ⟨s.table ++ [(kind.message r.msg).row.record],
      s.said ++ [⟨kind, kind.message r.msg⟩]⟩ := by
  have hreply : insertReply (kind.message r.msg) = .inserted := by simp [insertReply, hinsert]
  rcases List.exists_mem_of_ne_nil _ husers with ⟨user, huser⟩
  have hcarries : (users.map fun user => (⟨user.sockfd, kind.message r.msg⟩ : Sent)).any
      (fun s => s.message == kind.message r.msg) = true :=
    List.any_eq_true.2 ⟨_, List.mem_map_of_mem huser, beq_self_eq_true _⟩
  rw [hreply] at h
  simp [Room.serveChat, hreply, h, hinsert, Except.map, Delivery.carries, InsertReply.stored,
    hcarries]

/-- A request leaves table and log as they are, or adds one message to both. -/
theorem serveChat_cases {s s' : Room} {kind : ChatKind} {r : Served}
    (h : s.serveChat kind r = .ok s') (hkind : chatKind r.msg = some kind) (hr : r.Ordinary) :
    s' = s ∨ r.Inserts kind ∧ s' = ⟨s.table ++ [(kind.message r.msg).row.record],
      s.said ++ [⟨kind, kind.message r.msg⟩]⟩ := by
  have hfits := Nat.lt_succ_self (messageText (kind.message r.msg)).length
  cases hserve : kind.serve ((messageText (kind.message r.msg)).length + 1) r.store r.userList
      r.msg r.sockfd (insertReply (kind.message r.msg)) with
  | error e => simp [Room.serveChat, hserve, Except.map] at h
  | ok d =>
      have hrefused : Refused r.msg r.sockfd d → s' = s := by
        intro hrefused
        have hcarries := not_carries_of_refused hkind hrefused
        rcases hrefused with ⟨ret, rfl⟩
        have hstays : s.serveChat kind r = .ok s := by
          simp [Room.serveChat, hserve, Except.map, hcarries]
        exact Except.ok.inj (h.symm.trans hstays)
      cases kind with
      | group =>
          rcases groupChatStored_cases hfits hserve with hleft | ⟨users, hcollect, htwo, rfl⟩
          · exact Or.inl (hrefused hleft)
          · rcases hr.heard hkind users hcollect htwo with ⟨user, huser, hname⟩
            have hne : (users.filter fun user => !hasName r.msg.sendName user) ≠ [] := by
              refine List.ne_nil_of_mem (List.mem_filter.2 ⟨huser, ?_⟩)
              simpa [hasName] using hname
            have hinserts : r.Inserts .group := ⟨users, hcollect, htwo⟩
            have hinsert := insertion_of_ordinary hr hkind hinserts
            rw [serveChat_delivered _ hinsert hne hserve] at h
            exact Or.inr ⟨hinserts, (Except.ok.inj h).symm⟩
      | personal =>
          rcases personalChatStored_cases hfits hserve with hleft | ⟨hself, hsearch, user, rfl⟩
          · exact Or.inl (hrefused hleft)
          · have hinserts : r.Inserts .personal := ⟨hself, hsearch⟩
            have hinsert := insertion_of_ordinary hr hkind hinserts
            rw [serveChat_delivered [user] hinsert (List.cons_ne_nil _ _) hserve] at h
            exact Or.inr ⟨hinserts, (Except.ok.inj h).symm⟩

/-! ## Histories -/

/-- The table holds the records of what was said, and the receiver's name tells which kind of
message it was. -/
structure Room.Recorded (s : Room) : Prop where
  table : s.table = s.said.map fun x => x.message.row.record
  kinds : ∀ x ∈ s.said, x.kind = .group ↔ x.message.recvName = []

theorem recorded_empty : Room.empty.Recorded :=
  ⟨rfl, nofun⟩

theorem step_recorded {s s' : Room} {r : Served} (h : s.step r = .ok s') (hr : r.Ordinary)
    (hs : s.Recorded) : s'.Recorded := by
  cases hkind : chatKind r.msg with
  | none =>
      have hstays : s.step r = .ok s := by simp [Room.step, hkind]
      rw [← Except.ok.inj (h.symm.trans hstays)] at hs
      exact hs
  | some kind =>
      have hserve : s.serveChat kind r = .ok s' := by simpa [Room.step, hkind] using h
      rcases serveChat_cases hserve hkind hr with rfl | ⟨hinserts, rfl⟩
      · exact hs
      · refine ⟨by simp [hs.table], fun x hx => ?_⟩
        rcases List.mem_append.1 hx with hold | hnew
        · exact hs.kinds x hold
        · cases List.mem_singleton.1 hnew
          cases kind with
          | group => exact iff_of_true rfl rfl
          | personal => exact iff_of_false nofun (hr.named hkind hinserts)

theorem holds_group (row : MessageRow) :
    groupCondition.holds messageTable row.record = true ↔ row.recvName = [] := by
  simp [groupCondition, Condition.holds, Operand.eval, column_recvName]

theorem holds_pair (a b : CString) (row : MessageRow) :
    (pairCondition a b).holds messageTable row.record = true ↔
      row.sendName = a ∧ row.recvName = b ∨ row.sendName = b ∧ row.recvName = a := by
  simp [pairCondition, Condition.holds, Operand.eval, column_sendName, column_recvName]

/-- Whatever condition separates the messages asked for selects their records. -/
theorem Room.Recorded.selects {s : Room} (hs : s.Recorded) {msg : Message} {q : Select}
    {asked : Said → Bool} (hq : prepareSelect messageTable (recordsText msg) = some q)
    (hsame : ∀ x ∈ s.said,
      q.cond.holds messageTable x.message.row.record = true ↔ asked x = true) :
    s.Selects msg asked := by
  refine ⟨q, hq, ?_⟩
  rw [Select.rows, hs.table, List.filter_map]
  refine congrArg _ (List.filter_congr fun x hx => ?_)
  exact Bool.eq_iff_iff.2 (hsame x hx)

theorem Room.Recorded.selects_group {s : Room} (hs : s.Recorded) {msg : Message}
    (h : msg.recvName = allUsers) : s.Selects msg Said.isGroup := by
  have hname : recordsName msg = [] := by simp [recordsName, h]
  refine hs.selects (prepareSelect_group hname) fun x hx => ?_
  calc
    groupCondition.holds messageTable x.message.row.record = true
        ↔ x.message.recvName = [] := holds_group x.message.row
    _ ↔ x.kind = .group := (hs.kinds x hx).symm
    _ ↔ x.isGroup = true := by simp [Said.isGroup]

theorem Room.Recorded.selects_pair {s : Room} (hs : s.Recorded) {msg : Message}
    (h : msg.recvName ≠ allUsers) (hquote : quote ∉ msg.sendName ∧ quote ∉ msg.recvName)
    (hsend : msg.sendName ≠ []) (hrecv : msg.recvName ≠ []) :
    s.Selects msg (Said.between msg.sendName msg.recvName) := by
  have hname : recordsName msg = msg.recvName := by simp [recordsName, h]
  have hne : recordsName msg ≠ [] := by simpa [hname] using hrecv
  have hlex := (lex_recordsText_iff hne).2 (by simpa [hname] using hquote)
  refine hs.selects (prepareSelect_pair hne hlex) fun x hx => ?_
  rw [holds_pair, hname]
  -- Of the records with these two names, none is that of a group message.
  have hkind := hs.kinds x hx
  have hpersonal : x.message.recvName ≠ [] ↔ x.kind = .personal := by
    cases hx' : x.kind <;> simp [← hkind, hx']
  have hrow : x.message.row.sendName = x.message.sendName ∧
      x.message.row.recvName = x.message.recvName := ⟨rfl, rfl⟩
  rw [hrow.1, hrow.2]
  constructor
  · intro hpair
    have hnamed : x.message.recvName ≠ [] := by
      rcases hpair with ⟨_, heq⟩ | ⟨_, heq⟩
      · rwa [heq]
      · rwa [heq]
    simpa [Said.between, hpersonal.1 hnamed] using hpair
  · intro hbetween
    simp only [Said.between, Bool.and_eq_true, Bool.or_eq_true, beq_iff_eq] at hbetween
    exact hbetween.2

/-- Two users whose records are asked for have names that stand for themselves. -/
def Named (users : List CString) (msg : Message) : Prop :=
  WithUser users msg → msg.recvName ≠ allUsers ∧ msg.sendName ≠ [] ∧ msg.recvName ≠ []

theorem Room.Recorded.exact_of_named {s : Room} (hs : s.Recorded) {users : List CString}
    {msg : Message} (husers : ∀ name ∈ users, quote ∉ name) (hsend : msg.sendName ∈ users)
    (hnamed : Named users msg) : s.Exact users msg := by
  refine ⟨hs.selects_group, fun hpair => ?_⟩
  rcases hnamed hpair with ⟨hall, hsendName, hrecvName⟩
  exact hs.selects_pair hall ⟨husers _ hsend, husers _ hpair.1⟩ hsendName hrecvName

/-- In every history of ordinary requests the records are those of what was said. -/
theorem history_exact {users : List CString} (husers : ∀ name ∈ users, quote ∉ name)
    {is : List Served} (h : history.EveryStep (fun _ r => r.Ordinary) history.init is) :
    history.EveryState
      (fun s => ∀ msg, msg.sendName ∈ users → Named users msg → s.Exact users msg)
      history.init is :=
  history.everyState_of_everyStep (fun _ _ _ hs hr hstep => step_recorded hstep hr hs)
    (fun _ hs _ hsend hnamed => hs.exact_of_named husers hsend hnamed) recorded_empty h

/-- A personal message of the first of two users to the second. -/
def personalRequest : Served :=
  ⟨twoUsers, some 0,
    { request .personalChat with
      sendName := [97]
      recvName := [98]
      content := ascii "hi" }, 4⟩

/-- The second user answers to all. -/
def groupRequest : Served :=
  ⟨twoUsers, some 0,
    { request .groupChat with
      sendName := [98]
      content := ascii "hi, all" }, 5⟩

theorem two_messages_recorded :
    history.EveryState
      (fun s => ∀ msg, msg.sendName ∈ [[97], [98]] → Named [[97], [98]] msg →
        s.Exact [[97], [98]] msg)
      history.init [personalRequest, groupRequest] :=
  history_exact (by decide) ⟨
    { quoteFree := fun kind hkind _ => by
        cases hkind
        decide
      named := fun _ _ => by decide
      heard := nofun },
    fun _ _ => ⟨
      { quoteFree := fun kind hkind _ => by
          cases hkind
          decide
        named := nofun
        heard := fun _ users hcollect _ => by
          cases hcollect
          exact ⟨{ User.zero with userName := [97], sockfd := 4 }, by simp, by decide⟩ },
      fun _ _ => trivial⟩⟩

/-- A list on which the second user has registered with an empty name. -/
def namelessUsers : Store :=
  ⟨[some ⟨{ User.zero with userName := [97], sockfd := 4 }, some 1⟩,
    some ⟨{ User.zero with sockfd := 5 }, none⟩]⟩

/-- A personal message to the nameless user. -/
def namelessRequest : Served :=
  ⟨namelessUsers, some 0,
    { request .personalChat with
      sendName := [97]
      content := ascii "secret" }, 4⟩

/-- A personal message to the user without a name is among the group records. -/
theorem private_message_in_group_records :
    ¬ ∀ users : List CString, (∀ name ∈ users, name.length ≤ 19 ∧ quote ∉ name) →
      ∀ is : List Served, (∀ r ∈ is, r.msg.sendName ∈ users ∧ r.msg.recvName ∈ users) →
        history.EveryState (fun s => ∀ msg, msg.sendName ∈ users → s.Exact users msg)
          history.init is := by
  intro h
  have hrun : history.run [namelessRequest] =
      .ok ⟨[(personalMessage namelessRequest.msg).row.record],
        [⟨.personal, personalMessage namelessRequest.msg⟩]⟩ := by
    decide +kernel
  have hexact := (h [[97], []] (by decide) [namelessRequest] (by decide)).of_run hrun
    { Message.zero with sendName := [97], recvName := allUsers } (by decide)
  rcases hexact.group rfl with ⟨q, hq, hrows⟩
  rw [prepareSelect_group (by simp [recordsName])] at hq
  cases hq
  have hgroup : [(⟨.personal, personalMessage namelessRequest.msg⟩ : Said)].filter Said.isGroup =
      [] := by
    decide
  rw [hgroup] at hrows
  revert hrows
  decide

end ChatRoom
end LinuxLearn
