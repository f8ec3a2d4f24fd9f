import LinuxLearn.Lib.Machine
import LinuxLearn.ChatRoom.Chat

/-!
# Server — the chat server and the login of its connections

The server as a machine whose inputs are the results of `recv` on its connections, one at a time.
A connection starts in `handleRequest`; its first record is a REGISTER or LOGIN request, and
`enterChat` follows every LOGIN request, whatever `loginUser` returned.

The machine keeps on each connection in `enterChat` what its LOGIN request was, for the statements
below; the program does not look at this again.
-/

namespace LinuxLearn
namespace ChatRoom

open Lib

/-! ## State -/

/-- The reply of the database to a query for a user. -/
inductive QueryReply
  | cannotOpen
  | cannotPrepare
  | noRow
  | row
  deriving DecidableEq, Repr

/-- A connection in `enterChat`. -/
structure Session where
  /-- the record that came with the LOGIN request -/
  user : User
  /-- whether the name was on the online list then -/
  wasOnline : Bool
  /-- what the database replied then -/
  reply : QueryReply
  /-- the result of `loginUser` -/
  ret : StateRet
  /-- the record in the receive buffer -/
  buf : Message
  /-- whether `recv` has failed -/
  ended : Bool
  deriving DecidableEq, Repr

inductive Phase
  | accepted
  | chatting (sess : Session)
  | closed
  deriving DecidableEq, Repr

structure Conn where
  sockfd : Int
  phase : Phase
  deriving DecidableEq, Repr

structure Server where
  store : Store
  userList : Ref
  conns : List Conn
  sent : List Sent
  deriving DecidableEq, Repr

namespace Server

def initial : Server :=
  ⟨.empty, none, [], []⟩

def setPhase (s : Server) (id : Nat) (c : Conn) (phase : Phase) : Server :=
  { s with conns := s.conns.set id { c with phase := phase } }

def send (s : Server) (out : List Sent) : Server :=
  { s with sent := s.sent ++ out }

end Server

/-! ## `loginUser` and `registerUser` -/

/-- The user record that both functions work with. -/
def receivedUser (msg : Message) (user : User) (sockfd : Int) : User :=
  { user with
    userAddr := msg.sendAddr
    sockfd := sockfd }

def alreadyOnLine (st : Store) (userList : Ref) (user : User) : Bool :=
  decide (isOnLine st userList user = .ok true)

/-- The result, and the online list afterwards. -/
def loginUser (st : Store) (userList : Ref) (msg : Message) (user : User) (sockfd : Int)
    (reply : QueryReply) : Except PointerFault (StateRet × Store × Ref) :=
  let user := receivedUser msg user sockfd
  match isOnLine st userList user with
  | .error e => .error e
  | .ok true => .ok (.alreadyOnline, st, userList)
  | .ok false =>
      -- Only a row of the database leads to a new node.
      match reply with
      | .cannotOpen => .ok (.failed, st, userList)
      | .cannotPrepare => .ok (.failed, st, userList)
      | .noRow => .ok (.failed, st, userList)
      | .row =>
          match insertNode st userList user with
          | .error e => .error e
          | .ok (st, userList) => .ok (.success, st, userList)

def registerUser (user : User) (select : QueryReply) (insert : InsertReply) : StateRet :=
  if 20 < user.userName.length then .invalid
  else
    match select with
    | .cannotOpen => .failed
    | .cannotPrepare => .failed
    | .row => .failed
    | .noRow => insert.ret

/-! ## Steps -/

/-- The first `recv` on a connection, and what follows it for a REGISTER or LOGIN request. -/
inductive FirstRecv
  | failed
  | received (msg : Message) (user : User) (select : QueryReply) (insert : InsertReply)
  deriving DecidableEq, Repr

/-- A `recv` in `enterChat`; a failed one leaves the buffer as it is. -/
inductive ChatRecv
  | eof
  | failed
  | received (msg : Message)
  deriving DecidableEq, Repr

inductive Event
  | connect (sockfd : Int)
  | first (id : Nat) (recv : FirstRecv)
  | chat (id : Nat) (recv : ChatRecv) (db : ChatReplies)
  deriving DecidableEq, Repr

/-- The record that reports a result. -/
def resultMessage (ret : StateRet) : Message :=
  { Message.zero with
    msgType := MessageType.result.code
    msgRet := ret.code
    content := stateMsg ret }

def handleRequest (s : Server) (id : Nat) (c : Conn) : FirstRecv → Except Fault Server
  | .failed => .ok (s.setPhase id c .closed)
  | .received msg user select insert =>
      match MessageType.ofCode msg.msgType with
      | some .register =>
          let ret := registerUser user select insert
          .ok ((s.setPhase id c .closed).send [⟨c.sockfd, resultMessage ret⟩])
      | some .login =>
          -- `enterChat` follows whatever the result is.
          match loginUser s.store s.userList msg user c.sockfd select with
          | .error e => .error (.pointer e)
          | .ok (ret, store, userList) =>
              let wasOnline := alreadyOnLine s.store s.userList user
              let sess : Session := ⟨user, wasOnline, select, ret, .zero, false⟩
              let s := { s with store := store, userList := userList }
              .ok ((s.setPhase id c (.chatting sess)).send [⟨c.sockfd, resultMessage ret⟩])
      | _ => .ok (s.setPhase id c .closed)

/-- The session after a `recv`, with the record to serve in its buffer. -/
def Session.receive (sess : Session) : ChatRecv → Option Session
  | .eof => none
  | .failed => some { sess with ended := true }
  | .received msg => some { sess with buf := msg }

/-- One pass of the loop of `enterChat`. -/
def enterChat (s : Server) (id : Nat) (c : Conn) (sess : Session) (recv : ChatRecv)
    (db : ChatReplies) : Except Fault Server :=
  match sess.receive recv with
  | none => .ok (s.setPhase id c .closed)
  | some sess =>
      -- A failed `recv` is not told apart from a record: the buffer is served again.
      match serveRequest s.store s.userList sess.buf c.sockfd db with
      | .error e => .error e
      | .ok o =>
          let s := { s with store := o.store }
          let phase := if o.stays then .chatting sess else .closed
          .ok ((s.setPhase id c phase).send o.sent)

def serverStep (s : Server) : Event → Except Fault Server
  | .connect sockfd => .ok { s with conns := s.conns ++ [⟨sockfd, .accepted⟩] }
  | .first id recv =>
      match s.conns[id]? with
      | some ⟨sockfd, .accepted⟩ => handleRequest s id ⟨sockfd, .accepted⟩ recv
      | _ => .error .impossible
  | .chat id recv db =>
      match s.conns[id]? with
      | some ⟨sockfd, .chatting sess⟩ => enterChat s id ⟨sockfd, .chatting sess⟩ sess recv db
      | _ => .error .impossible

def server : Machine Server Event Fault where
  init := .initial
  step := serverStep

/-! ## Authentication -/

/-- The session that a step makes a pass of `enterChat` for, after its `recv`. -/
def served (s : Server) : Event → Option Session
  | .chat id recv _ =>
      match s.conns[id]? with
      | some ⟨_, .chatting sess⟩ => sess.receive recv
      | _ => none
  | _ => none

/-- A chat request, EXIT included. -/
def isChatRequest (msg : Message) : Prop :=
  MessageType.ofCode msg.msgType ∈
    [some MessageType.groupChat, some .personalChat, some .viewUserList, some .viewRecords,
      some .exit]

instance (msg : Message) : Decidable (isChatRequest msg) := by
  unfold isChatRequest
  infer_instance

/-- A chat request is executed only for a user who is logged in, and in the name of this user. -/
def Authenticated (s : Server) (e : Event) : Prop :=
  ∀ sess, served s e = some sess → isChatRequest sess.buf →
    sess.ret = .success ∧ sess.buf.sendName = sess.user.userName

/-- The client itself sends chat requests only after a LOGIN request for a name that was not
online and that the database found with its password, and names itself in them. -/
def ClientBehaves (s : Server) (e : Event) : Prop :=
  ∀ sess, served s e = some sess → isChatRequest sess.buf →
    sess.wasOnline = false ∧ sess.reply = .row ∧ sess.buf.sendName = sess.user.userName

theorem isOnLine_receivedUser (st : Store) (userList : Ref) (msg : Message) (user : User)
    (sockfd : Int) :
    isOnLine st userList (receivedUser msg user sockfd) = isOnLine st userList user := rfl

/-- `loginUser` succeeds exactly for good credentials. -/
theorem loginUser_ret {st st' : Store} {userList userList' : Ref} {msg : Message} {user : User}
    {sockfd : Int} {reply : QueryReply} {ret : StateRet}
    (h : loginUser st userList msg user sockfd reply = .ok (ret, st', userList')) :
    ret = .success ↔ alreadyOnLine st userList user = false ∧ reply = .row := by
  simp only [loginUser, isOnLine_receivedUser] at h
  cases honline : isOnLine st userList user with
  | error e =>
      rw [honline] at h
      cases h
  | ok online =>
      rw [honline] at h
      cases online with
      | true =>
          cases h
          simp [alreadyOnLine, honline]
      | false =>
          cases reply with
          | row =>
              dsimp only at h
              split at h
              · cases h
              · cases h
                simp [alreadyOnLine, honline]
          | _ =>
              cases h
              simp

/-- The result of every session is that of its credentials. -/
def ResultsRecorded (s : Server) : Prop :=
  ∀ c ∈ s.conns, ∀ sess, c.phase = .chatting sess →
    (sess.ret = .success ↔ sess.wasOnline = false ∧ sess.reply = .row)

/-- What holds of every connection and of the one that changes its phase holds of all after it. -/
theorem forall_setPhase {P : Conn → Prop} {s : Server} {id : Nat} {c : Conn} {phase : Phase}
    (h : ∀ d ∈ s.conns, P d) (hnew : P { c with phase := phase }) :
    ∀ d ∈ (s.setPhase id c phase).conns, P d := by
  intro d hd
  rcases List.mem_or_eq_of_mem_set hd with hold | rfl
  · exact h d hold
  · exact hnew

theorem resultsRecorded_setPhase {s : Server} {id : Nat} {c : Conn} {phase : Phase}
    (h : ResultsRecorded s)
    (hphase : ∀ sess, phase = .chatting sess →
      (sess.ret = .success ↔ sess.wasOnline = false ∧ sess.reply = .row)) :
    ResultsRecorded (s.setPhase id c phase) :=
  forall_setPhase h hphase

theorem receive_credentials {sess sess' : Session} {recv : ChatRecv}
    (h : sess.receive recv = some sess') :
    sess'.ret = sess.ret ∧ sess'.wasOnline = sess.wasOnline ∧ sess'.reply = sess.reply ∧
      sess'.user = sess.user := by
  cases recv with
  | eof => cases h
  | failed =>
      cases h
      exact ⟨rfl, rfl, rfl, rfl⟩
  | received msg =>
      cases h
      exact ⟨rfl, rfl, rfl, rfl⟩

theorem resultsRecorded_step (s : Server) (e : Event) (t : Server) (hs : ResultsRecorded s)
    (hstep : serverStep s e = .ok t) : ResultsRecorded t := by
  -- Only a LOGIN request starts a session, and none of its results changes later.
  cases e with
  | connect sockfd =>
      cases hstep
      intro c hc sess hsess
      rcases List.mem_append.1 hc with hold | hnew
      · exact hs c hold sess hsess
      · cases List.mem_singleton.1 hnew
        cases hsess
  | first id recv =>
      simp only [serverStep] at hstep
      split at hstep
      · cases recv with
        | failed =>
            cases hstep
            exact resultsRecorded_setPhase hs fun _ h => nomatch h
        | received msg user select insert =>
            simp only [handleRequest] at hstep
            split at hstep
            · cases hstep
              exact resultsRecorded_setPhase hs fun _ h => nomatch h
            · split at hstep
              · cases hstep
              · cases hstep
                refine resultsRecorded_setPhase hs ?_
                intro sess hsess
                cases hsess
                exact loginUser_ret ‹_›
            · cases hstep
              exact resultsRecorded_setPhase hs fun _ h => nomatch h
      · cases hstep
  | chat id recv db =>
      simp only [serverStep] at hstep
      split at hstep
      · rename_i sockfd sess hget
        have hsess := hs _ (List.mem_of_getElem? hget) sess rfl
        simp only [enterChat] at hstep
        split at hstep
        · cases hstep
          exact resultsRecorded_setPhase hs fun _ h => nomatch h
        · rename_i sess' hreceive
          split at hstep
          · cases hstep
          · cases hstep
            refine resultsRecorded_setPhase hs ?_
            intro sess'' hsess''
            split at hsess''
            · cases hsess''
              rcases receive_credentials hreceive with ⟨hret, honline, hreply, _⟩
              rw [hret, honline, hreply]
              exact hsess
            · cases hsess''
      · cases hstep

/-- Over every run, all chat requests executed are authenticated exactly if the clients see to it
themselves. -/
theorem authenticated_iff_clientBehaves (events : List Event) :
    server.EveryStep Authenticated server.init events ↔
      server.EveryStep ClientBehaves server.init events := by
  have hinit : ResultsRecorded server.init := by
    intro c hc
    cases hc
  refine server.everyStep_congr resultsRecorded_step ?_ hinit events
  intro s e hs
  refine forall_congr' fun sess => forall_congr' fun hserved => forall_congr' fun hrequest => ?_
  -- The session served is one of the state, up to what `recv` has done to it.
  have hsess : sess.ret = .success ↔ sess.wasOnline = false ∧ sess.reply = .row := by
    cases e with
    | connect sockfd => cases hserved
    | first id recv => cases hserved
    | chat id recv db =>
        simp only [served] at hserved
        split at hserved
        · rename_i sockfd old hget
          rcases receive_credentials hserved with ⟨hret, honline, hreply, _⟩
          rw [hret, honline, hreply]
          exact hs _ (List.mem_of_getElem? hget) old rfl
        · cases hserved
  rw [hsess, and_assoc]

/-- A request whose only filled field is its type. -/
def request (t : MessageType) : Message :=
  { Message.zero with msgType := t.code }

/-- A LOGIN request that the database does not confirm, then a request for the list of users. -/
def refusedLogin : List Event :=
  [.connect 4, .first 0 (.received (request .login) .zero .noRow .cannotOpen),
    .chat 0 (.received (request .viewUserList)) ⟨.cannotOpen, .cannotOpen⟩]

/-- The request is served all the same. -/
theorem refused_login_is_served :
    ¬ ∀ events, server.EveryStep Authenticated server.init events := by
  intro h
  have hlast := (((h refusedLogin).2 _ rfl).2 _ rfl).1
  have hret := (hlast _ rfl (by decide)).1
  revert hret
  decide

end ChatRoom
end LinuxLearn
