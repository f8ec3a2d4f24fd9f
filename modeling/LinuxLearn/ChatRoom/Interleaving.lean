import LinuxLearn.ChatRoom.Sessions

/-!
# Interleaving — logins that run at the same time

The server runs one thread for each connection.  `Server` lets a whole request happen in one step;
here the threads interleave between the calls that `loginUser` makes: `isOnLine`, the query to the
database, and `insertNode`.  Each of these calls, and each `deleteNode`, is one step.

Between its check and its insertion a login holds no lock, so two logins of one user can both pass
the check.  The main result says that the names on the list stay distinct exactly as long as every
insertion finds its user still offline.
-/

namespace LinuxLearn
namespace ChatRoom
namespace Interleaving

open Lib

/-! ## State -/

/-- Where the thread of a connection stands. -/
inductive Stage
  | accepted
  /-- `isOnLine` has returned 0; the query comes next -/
  | offline (user : User)
  /-- the query has found the user; `insertNode` comes next -/
  | found (user : User)
  /-- in `enterChat`, with the record in its receive buffer -/
  | chatting (buf : Message)
  | closed
  deriving DecidableEq, Repr

structure Handler where
  sockfd : Int
  stage : Stage
  deriving DecidableEq, Repr

/-- The memory that the threads share, and their stages. -/
structure Shared where
  store : Store
  userList : Ref
  handlers : List Handler
  deriving DecidableEq, Repr

namespace Shared

def initial : Shared :=
  ⟨.empty, none, []⟩

def goto (s : Shared) (id : Nat) (sockfd : Int) (stage : Stage) : Shared :=
  { s with handlers := s.handlers.set id ⟨sockfd, stage⟩ }

end Shared

/-! ## Steps -/

/-- The first `recv` of a thread, and for a LOGIN request the second one. -/
inductive FirstRecord
  | failed
  | received (msg : Message) (user : User)
  deriving DecidableEq, Repr

/-- The thread that moves, and what its environment gives it. -/
inductive Action
  | connect (sockfd : Int)
  | first (id : Nat) (recv : FirstRecord)
  | lookup (id : Nat) (reply : QueryReply)
  | insert (id : Nat)
  | chat (id : Nat) (recv : ChatRecv) (db : ChatReplies)
  deriving DecidableEq, Repr

/-- A LOGIN request up to the result of `isOnLine`. -/
def checkUser (s : Shared) (id : Nat) (sockfd : Int) (user : User) : Except Fault Shared :=
  match isOnLine s.store s.userList user with
  | .error e => .error (.pointer e)
  | .ok true => .ok (s.goto id sockfd (.chatting .zero))
  | .ok false => .ok (s.goto id sockfd (.offline user))

def insertUser (s : Shared) (id : Nat) (sockfd : Int) (user : User) : Except Fault Shared :=
  match insertNode s.store s.userList user with
  | .error e => .error (.pointer e)
  | .ok (store, userList) =>
      .ok { s.goto id sockfd (.chatting .zero) with store := store, userList := userList }

/-- One pass of the loop of `enterChat`, for the record in its buffer. -/
def serveBuffer (s : Shared) (id : Nat) (sockfd : Int) (buf : Message) (db : ChatReplies) :
    Except Fault Shared :=
  match serveRequest s.store s.userList buf sockfd db with
  | .error e => .error e
  | .ok o => .ok { s.goto id sockfd (if o.stays then .chatting buf else .closed) with
      store := o.store }

def step (s : Shared) : Action → Except Fault Shared
  | .connect sockfd => .ok { s with handlers := s.handlers ++ [⟨sockfd, .accepted⟩] }
  | .first id recv =>
      match s.handlers[id]? with
      | some ⟨sockfd, .accepted⟩ =>
          match recv with
          | .failed => .ok (s.goto id sockfd .closed)
          | .received msg user =>
              match MessageType.ofCode msg.msgType with
              | some .login => checkUser s id sockfd (receivedUser msg user sockfd)
              | _ => .ok (s.goto id sockfd .closed)
      | _ => .error .impossible
  | .lookup id reply =>
      match s.handlers[id]? with
      | some ⟨sockfd, .offline user⟩ =>
          match reply with
          | .row => .ok (s.goto id sockfd (.found user))
          -- `enterChat` follows a refused login as well.
          | _ => .ok (s.goto id sockfd (.chatting .zero))
      | _ => .error .impossible
  | .insert id =>
      match s.handlers[id]? with
      | some ⟨sockfd, .found user⟩ => insertUser s id sockfd user
      | _ => .error .impossible
  | .chat id recv db =>
      match s.handlers[id]? with
      | some ⟨sockfd, .chatting buf⟩ =>
          match recv with
          | .eof => .ok (s.goto id sockfd .closed)
          | .failed => serveBuffer s id sockfd buf db
          | .received msg => serveBuffer s id sockfd msg db
      | _ => .error .impossible

/-- The threads as a machine whose inputs are the scheduled steps. -/
def threads : Machine Shared Action Fault where
  init := .initial
  step := step

/-! ## Uninterrupted logins -/

section Login

variable {s : Shared} {id : Nat} {sockfd : Int} {msg : Message} {user : User}

theorem getElem?_goto (hget : s.handlers[id]? = some ⟨sockfd, .accepted⟩) (stage : Stage) :
    (s.goto id sockfd stage).handlers[id]? = some ⟨sockfd, stage⟩ := by
  have hid : id < s.handlers.length := (List.getElem?_eq_some_iff.1 hget).1
  simp [Shared.goto, hid]

@[simp] theorem goto_goto (stage stage' : Stage) :
    (s.goto id sockfd stage).goto id sockfd stage' = s.goto id sockfd stage' := by
  simp [Shared.goto]

theorem step_first (user : User) (hget : s.handlers[id]? = some ⟨sockfd, .accepted⟩)
    (htype : MessageType.ofCode msg.msgType = some .login) :
    threads.step s (.first id (.received msg user)) =
      checkUser s id sockfd (receivedUser msg user sockfd) := by
  simp only [threads, step, hget, htype]

theorem step_lookup (reply : QueryReply)
    (hget : s.handlers[id]? = some ⟨sockfd, .offline user⟩) :
    threads.step s (.lookup id reply) =
      .ok (s.goto id sockfd (if reply = .row then .found user else .chatting .zero)) := by
  cases reply with
  | row => simp only [threads, step, hget, if_true]
  | _ => simp [threads, step, hget]

theorem step_insert (hget : s.handlers[id]? = some ⟨sockfd, .found user⟩) :
    threads.step s (.insert id) = insertUser s id sockfd user := by
  simp only [threads, step, hget]

/-- The steps of a LOGIN request when no other thread runs between them. -/
def loginSteps (id : Nat) (msg : Message) (user : User) (reply : QueryReply) (online : Bool) :
    List Action :=
  if online then [.first id (.received msg user)]
  else if reply = .row then
    [.first id (.received msg user), .lookup id reply, .insert id]
  else
    [.first id (.received msg user), .lookup id reply]

/-- Without interruption the steps do what `loginUser` does. -/
theorem loginSteps_run {reply : QueryReply} {ret : StateRet} {store : Store} {userList : Ref}
    (hget : s.handlers[id]? = some ⟨sockfd, .accepted⟩)
    (htype : MessageType.ofCode msg.msgType = some .login)
    (hlogin : loginUser s.store s.userList msg user sockfd reply = .ok (ret, store, userList)) :
    threads.runFrom s
        (loginSteps id msg user reply (alreadyOnLine s.store s.userList user)) =
      .ok { s.goto id sockfd (.chatting .zero) with store := store, userList := userList } := by
  have hfirst := step_first user hget htype
  simp only [loginUser, isOnLine_receivedUser] at hlogin
  simp only [checkUser, isOnLine_receivedUser] at hfirst
  cases hcheck : isOnLine s.store s.userList user with
  | error e =>
      rw [hcheck] at hlogin
      cases hlogin
  | ok online =>
      rw [hcheck] at hlogin hfirst
      cases online with
      | true =>
          cases hlogin
          have honline : alreadyOnLine s.store s.userList user = true := by
            simp [alreadyOnLine, hcheck]
          rw [honline, loginSteps, if_pos rfl, threads.runFrom_cons_ok hfirst]
          rfl
      | false =>
          have honline : alreadyOnLine s.store s.userList user = false := by
            simp [alreadyOnLine, hcheck]
          have hlookup := step_lookup reply
            (getElem?_goto hget (.offline (receivedUser msg user sockfd)))
          rw [goto_goto] at hlookup
          rw [honline, loginSteps, if_neg Bool.false_ne_true]
          by_cases hrow : reply = .row
          · subst hrow
            have hinsert := step_insert
              (getElem?_goto hget (.found (receivedUser msg user sockfd)))
            dsimp only at hlogin
            split at hlogin
            · cases hlogin
            · rename_i hnode
              cases hlogin
              have hdone : insertUser (s.goto id sockfd (.found (receivedUser msg user sockfd))) id
                  sockfd (receivedUser msg user sockfd) =
                  .ok { s.goto id sockfd (.chatting .zero) with
                    store := store, userList := userList } := by
                simp [insertUser, Shared.goto, hnode]
              rw [if_pos rfl, threads.runFrom_cons_ok hfirst, threads.runFrom_cons_ok hlookup,
                if_pos rfl, threads.runFrom_cons_ok (hinsert.trans hdone)]
              rfl
          · have hkeep : store = s.store ∧ userList = s.userList := by
              cases reply with
              | row => exact absurd rfl hrow
              | _ =>
                  cases hlogin
                  exact ⟨rfl, rfl⟩
            rw [if_neg hrow, threads.runFrom_cons_ok hfirst, threads.runFrom_cons_ok hlookup,
              if_neg hrow, hkeep.1, hkeep.2]
            rfl

end Login

/-! ## What a step does to the list -/

/-- The effect of a step on the online list. -/
inductive ListEffect (s : Shared) (a : Action) (t : Shared) : Prop
  | none (hstore : t.store = s.store) (hlist : t.userList = s.userList)
      (hinsert : ∀ id, a ≠ .insert id)
  | insert (id : Nat) (sockfd : Int) (user : User) (ha : a = .insert id)
      (hget : s.handlers[id]? = some ⟨sockfd, .found user⟩)
      (heff : insertNode s.store s.userList user = .ok (t.store, t.userList))
  | delete (name : CString) (hlist : t.userList = s.userList) (hinsert : ∀ id, a ≠ .insert id)
      (heff : deleteNode s.store s.userList { User.zero with userName := name } = .ok t.store)

/-- A pass of `enterChat` deletes the name of an EXIT request, and else leaves the list alone. -/
theorem serveBuffer_effect {s t : Shared} {id : Nat} {sockfd : Int} {buf : Message}
    {db : ChatReplies} {a : Action} (ha : ∀ id, a ≠ .insert id)
    (h : serveBuffer s id sockfd buf db = .ok t) : ListEffect s a t := by
  unfold serveBuffer at h
  split at h
  · cases h
  · rename_i o ho
    cases h
    by_cases hexit : MessageType.ofCode buf.msgType = some .exit
    · cases hdelete : deleteNode s.store s.userList { User.zero with userName := buf.sendName } with
      | error e => simp [serveRequest, hexit, hdelete] at ho
      | ok st =>
          have hout : o = ⟨st, [], false⟩ := serveRequest_exit ho hexit hdelete
          subst hout
          exact .delete buf.sendName rfl ha hdelete
    · exact .none (serveRequest_keeps ho hexit).1 rfl ha

theorem listEffect_of_step {s t : Shared} {a : Action} (h : step s a = .ok t) :
    ListEffect s a t := by
  cases a with
  | connect sockfd =>
      cases h
      exact .none rfl rfl fun _ heq => nomatch heq
  | first id recv =>
      simp only [step] at h
      split at h
      · cases recv with
        | failed =>
            cases h
            exact .none rfl rfl fun _ heq => nomatch heq
        | received msg user =>
            dsimp only at h
            split at h
            · unfold checkUser at h
              split at h
              · cases h
              · cases h
                exact .none rfl rfl fun _ heq => nomatch heq
              · cases h
                exact .none rfl rfl fun _ heq => nomatch heq
            · cases h
              exact .none rfl rfl fun _ heq => nomatch heq
      · cases h
  | lookup id reply =>
      simp only [step] at h
      split at h
      · split at h
        · cases h
          exact .none rfl rfl fun _ heq => nomatch heq
        · cases h
          exact .none rfl rfl fun _ heq => nomatch heq
      · cases h
  | insert id =>
      simp only [step] at h
      split at h
      · rename_i sockfd user hget
        unfold insertUser at h
        split at h
        · cases h
        · rename_i store userList hinsert
          cases h
          exact .insert id sockfd user rfl hget hinsert
      · cases h
  | chat id recv db =>
      simp only [step] at h
      split at h
      · cases recv with
        | eof =>
            cases h
            exact .none rfl rfl fun _ heq => nomatch heq
        | failed => exact serveBuffer_effect (fun _ heq => nomatch heq) h
        | received msg => exact serveBuffer_effect (fun _ heq => nomatch heq) h
      · cases h

/-! ## Distinct names -/

/-- No list that can be read from `userList` has two nodes of one name. -/
def UniqueNames (s : Shared) : Prop :=
  ∀ l, s.store.Chain s.userList l → (names l).Nodup

/-- An insertion finds its user still offline. -/
def StillOffline (s : Shared) : Action → Prop
  | .insert id => ∀ sockfd user, s.handlers[id]? = some ⟨sockfd, .found user⟩ →
      isOnLine s.store s.userList user = .ok false
  | _ => True

theorem stillOffline_of_ne {s : Shared} {a : Action} (ha : ∀ id, a ≠ .insert id) :
    StillOffline s a := by
  cases a with
  | insert id => exact absurd rfl (ha id)
  | _ => trivial

/-- The list can be read to its end, or its first node has been freed. -/
def Traceable (s : Shared) : Prop :=
  (∃ l, s.store.Chain s.userList l) ∨ s.store.Dangling s.userList

theorem uniqueNames_iff {s : Shared} {l : List (Nat × User)} (h : s.store.Chain s.userList l) :
    UniqueNames s ↔ (names l).Nodup := by
  constructor
  · intro hunique
    exact hunique l h
  · intro hnodup m hm
    cases NodeStore.Chain.unique hm h
    exact hnodup

theorem uniqueNames_of_dangling {s : Shared} (h : s.store.Dangling s.userList) :
    UniqueNames s :=
  fun l hl => absurd hl (h.not_chain l)

theorem names_nodup_concat {l : List (Nat × User)} (h : (names l).Nodup) (r : Nat) (user : User) :
    (names (l ++ [(r, copyUser .zero user)])).Nodup ↔ user.userName ∉ names l := by
  have hconcat : names (l ++ [(r, copyUser .zero user)]) = names l ++ [user.userName] := by
    simp [names]
  rw [hconcat, List.nodup_append]
  constructor
  · rintro ⟨_, _, hdisjoint⟩ hmem
    exact hdisjoint _ hmem _ (List.mem_singleton_self _) rfl
  · intro hnot
    refine ⟨h, List.nodup_singleton _, ?_⟩
    intro a ha b hb heq
    rw [List.mem_singleton.1 hb] at heq
    exact hnot (heq ▸ ha)

theorem uniqueNames_step {s t : Shared} {a : Action} (hA : Traceable s) (hP : UniqueNames s)
    (hstep : step s a = .ok t) :
    (UniqueNames t ↔ StillOffline s a) ∧ (UniqueNames t → Traceable t) := by
  cases listEffect_of_step hstep with
  | none hstore hlist hinsert =>
      have hsame : UniqueNames t := by
        rw [UniqueNames, hstore, hlist]
        exact hP
      refine ⟨iff_of_true hsame (stillOffline_of_ne hinsert), fun _ => ?_⟩
      rwa [Traceable, hstore, hlist]
  | insert id sockfd user ha hget heff =>
      subst ha
      rcases hA with ⟨l, hl⟩ | hdangling
      · rcases insertNode_chain hl user with ⟨st', list', r, hok, hchain⟩
        cases heff.symm.trans hok
        refine ⟨?_, fun _ => Or.inl ⟨_, hchain⟩⟩
        rw [uniqueNames_iff hchain, names_nodup_concat (hP l hl)]
        -- The check that the login made before would answer the same question.
        have honline := isOnLine_chain hl user
        constructor
        · intro hnot sockfd' user' hget'
          cases hget.symm.trans hget'
          simpa [hnot] using honline
        · intro hoffline
          have hfalse := honline.symm.trans (hoffline sockfd user hget)
          simpa using hfalse
      · rw [insertNode_dangling hdangling] at heff
        cases heff
  | delete name hlist hinsert heff =>
      have hcondition : StillOffline s a := stillOffline_of_ne hinsert
      rcases hA with ⟨l, hl⟩ | hdangling
      · rcases deleteNode_cases hl { User.zero with userName := name } with ⟨st', hok, hcases⟩
        cases heff.symm.trans hok
        rw [← hlist] at hcases
        rcases hcases with ⟨_, hdangling⟩ | ⟨_, m, hm, hperm⟩
        · exact ⟨iff_of_true (uniqueNames_of_dangling hdangling) hcondition,
            fun _ => Or.inr hdangling⟩
        · have hnodup : (names m).Nodup := (hperm.nodup_iff.1 (hP l hl)).of_append_right
          exact ⟨iff_of_true ((uniqueNames_iff hm).2 hnodup) hcondition, fun _ => Or.inl ⟨m, hm⟩⟩
      · rw [deleteNode_dangling hdangling] at heff
        cases heff

/-- Over every schedule, the names on the list stay distinct exactly if every insertion that
happens finds its user still offline. -/
theorem unique_names_iff (schedule : List Action) :
    threads.EveryState UniqueNames threads.init schedule ↔
      threads.EveryTakenStep StillOffline threads.init schedule := by
  have hchain : threads.init.store.Chain threads.init.userList [] := rfl
  have hinit : UniqueNames threads.init := (uniqueNames_iff hchain).2 List.nodup_nil
  exact threads.everyState_iff_everyTakenStep
    (fun _ _ _ hA hP hstep => uniqueNames_step hA hP hstep) (Or.inl ⟨[], hchain⟩) hinit schedule

/-- Two clients log in as the same user, and both are checked before either is inserted. -/
def doubleLogin : List Action :=
  [.connect 4, .connect 5, .first 0 (.received (request .login) .zero),
    .first 1 (.received (request .login) .zero), .lookup 0 .row, .lookup 1 .row, .insert 0,
    .insert 1]

theorem double_login_listed_twice :
    ¬ ∀ schedule, threads.EveryState UniqueNames threads.init schedule := by
  intro h
  have hlast : UniqueNames _ := (h doubleLogin).of_run rfl
  have hnodup := hlast [(0, { User.zero with sockfd := 4 }), (1, { User.zero with sockfd := 5 })]
    ⟨rfl, _, rfl, rfl, _, rfl, rfl⟩
  revert hnodup
  decide

end Interleaving
end ChatRoom
end LinuxLearn
