import LinuxLearn.ChatRoom.Server

/-!
# Sessions — the online list and the live sessions

A session is live from a successful LOGIN request until its client sends EXIT or `recv` reports
the end of the connection or an error.  The online list is meant to hold exactly the names of the
live sessions; this file proves of which runs this is true.
-/

namespace LinuxLearn
namespace ChatRoom

open Lib

/-! ## Live sessions -/

def Session.live (sess : Session) : Bool :=
  sess.ret == .success && !sess.ended

/-- The name of a connection with a live session. -/
def Conn.liveName (c : Conn) : List CString :=
  match c.phase with
  | .chatting sess => if sess.live then [sess.user.userName] else []
  | _ => []

def liveNames (s : Server) : List CString :=
  s.conns.flatMap Conn.liveName

/-- The names reached from `userList` are exactly those of the live sessions. -/
def OnlineListExact (s : Server) : Prop :=
  ∃ l, s.store.Chain s.userList l ∧ ∀ name, name ∈ names l ↔ name ∈ liveNames s

/-- The user at the head of the online list. -/
def headUser (s : Server) : Option CString :=
  s.userList.bind fun r => (s.store.deref r).map fun c => c.data.userName

/-- A live session ends with an EXIT request in its own name, and is not the first of the list
then; an EXIT request of any other session names nobody on the list. -/
def EndsProperly (s : Server) : Event → Prop
  | .chat id recv _ =>
      ∀ sockfd sess, s.conns[id]? = some ⟨sockfd, .chatting sess⟩ →
        match recv with
        | .received msg =>
            MessageType.ofCode msg.msgType = some .exit →
              if sess.live = true then
                msg.sendName = sess.user.userName ∧ headUser s ≠ some msg.sendName
              else
                alreadyOnLine s.store s.userList { User.zero with userName := msg.sendName } = false
        | _ => sess.live = false
  | _ => True

/-! ## Replacing one connection -/

/-- The live names before and after one connection changes its phase. -/
theorem liveNames_setPhase {s : Server} {id : Nat} {c : Conn} (h : s.conns[id]? = some c)
    (phase : Phase) :
    ∃ others, (liveNames s).Perm (c.liveName ++ others) ∧
      (liveNames (s.setPhase id c phase)).Perm
        (Conn.liveName { c with phase := phase } ++ others) := by
  -- The other connections stand before and behind the one that changes.
  rcases Machine.exists_split_of_getElem? h with ⟨l₁, l₂, hl, _, hset⟩
  refine ⟨l₁.flatMap Conn.liveName ++ l₂.flatMap Conn.liveName, ?_, ?_⟩
  · simpa [liveNames, hl] using List.perm_append_comm_assoc _ _ _
  · simpa [liveNames, Server.setPhase, hset] using List.perm_append_comm_assoc _ _ _

/-! ## The invariant -/

/-- No name is online twice, and no session has an EXIT request in its buffer. -/
structure Orderly (s : Server) : Prop where
  listed : ∀ l, s.store.Chain s.userList l → (names l).Nodup
  live : (liveNames s).Nodup
  buffers : ∀ c ∈ s.conns, ∀ sess, c.phase = .chatting sess →
    MessageType.ofCode sess.buf.msgType ≠ some .exit

theorem onlineListExact_iff {s : Server} {l : List (Nat × User)}
    (h : s.store.Chain s.userList l) :
    OnlineListExact s ↔ ∀ name, name ∈ names l ↔ name ∈ liveNames s := by
  constructor
  · rintro ⟨m, hm, hnames⟩
    cases NodeStore.Chain.unique hm h
    exact hnames
  · intro hnames
    exact ⟨l, h, hnames⟩

/-- Steps that leave the list and the live names alone. -/
theorem exact_of_quiet {s t : Server} (hA : Orderly s) (hP : OnlineListExact s)
    (hstore : t.store = s.store) (hlist : t.userList = s.userList)
    (hlive : (liveNames t).Perm (liveNames s))
    (hbuffers : ∀ c ∈ t.conns, ∀ sess, c.phase = .chatting sess →
      MessageType.ofCode sess.buf.msgType ≠ some .exit) :
    OnlineListExact t ∧ Orderly t := by
  rcases hP with ⟨l, hl, hnames⟩
  refine ⟨⟨l, ?_, ?_⟩, ⟨?_, hlive.nodup_iff.2 hA.live, hbuffers⟩⟩
  · rwa [hstore, hlist]
  · intro name
    rw [hnames name, hlive.mem_iff]
  · intro m hm
    rw [hstore, hlist] at hm
    exact hA.listed m hm

theorem buffers_setPhase {s : Server} {id : Nat} {c : Conn} {phase : Phase} (h : Orderly s)
    (hphase : ∀ sess, phase = .chatting sess →
      MessageType.ofCode sess.buf.msgType ≠ some .exit) :
    ∀ d ∈ (s.setPhase id c phase).conns, ∀ sess, d.phase = .chatting sess →
      MessageType.ofCode sess.buf.msgType ≠ some .exit :=
  forall_setPhase h.buffers hphase

/-! ## Deleting a name -/

/-- The first node of a name takes that name from the names of the list. -/
theorem names_perm_eraseP (name : CString) (l : List (Nat × User)) :
    (names l).Perm ((if name ∈ names l then [name] else []) ++
      names (l.eraseP fun x => hasName name x.2)) := by
  rcases split_names name l with ⟨hnot, hclear⟩ | ⟨l₁, r, u, l₂, rfl, hname, _, hclear⟩
  · rw [if_neg hnot, eraseP_absent hclear, List.nil_append]
  · have hu : hasName name u = true := by simp [hasName, hname]
    have hmem : name ∈ names (l₁ ++ (r, u) :: l₂) := by simp [names, hname]
    rw [if_pos hmem, eraseP_name hclear hu]
    simp only [names, List.map_append, List.map_cons, hname, List.singleton_append]
    exact List.perm_middle

/-- A deletion breaks the list when the name is its first one, and takes the name out else. -/
theorem deleteNode_cases {st : Store} {list : Ref} {l : List (Nat × User)} (h : st.Chain list l)
    (user : User) :
    ∃ st', deleteNode st list user = .ok st' ∧
      (((names l).head? = some user.userName ∧ st'.Dangling list) ∨
        ((names l).head? ≠ some user.userName ∧ ∃ m, st'.Chain list m ∧
          (names l).Perm
            ((if user.userName ∈ names l then [user.userName] else []) ++ names m))) := by
  rcases deleteNode_chain h user with ⟨st', hdelete, hbroken | ⟨hhead, hchain⟩⟩
  · exact ⟨st', hdelete, Or.inl hbroken⟩
  · exact ⟨st', hdelete, Or.inr ⟨hhead, _, hchain, names_perm_eraseP user.userName l⟩⟩

theorem headUser_eq {s : Server} {l : List (Nat × User)} (h : s.store.Chain s.userList l) :
    headUser s = (names l).head? := by
  cases l with
  | nil =>
      have hnull : s.userList = none := h
      simp [headUser, hnull, names]
  | cons x l =>
      rcases h with ⟨hr, next, hcell, _⟩
      simp [headUser, hr, hcell, names]

theorem alreadyOnLine_eq {s : Server} {l : List (Nat × User)} (h : s.store.Chain s.userList l)
    (user : User) : alreadyOnLine s.store s.userList user = decide (user.userName ∈ names l) := by
  simp [alreadyOnLine, isOnLine_chain h]

/-! ## Steps -/

/-- Two ways to split off names leave the same names exactly if they split off the same. -/
theorem rest_mem_iff {ns gone rest own others : List CString} (hns : ns.Nodup)
    (hgone : ns.Perm (gone ++ rest)) (hown : ns.Perm (own ++ others)) :
    (∀ name, name ∈ rest ↔ name ∈ others) ↔ gone.Perm own := by
  have hboth : (gone ++ rest).Perm (own ++ others) := hgone.symm.trans hown
  constructor
  · intro hmem
    have hrest : rest.Nodup := (hgone.nodup_iff.1 hns).of_append_right
    have hothers : others.Nodup := (hown.nodup_iff.1 hns).of_append_right
    have hperm : rest.Perm others := (List.perm_ext_iff_of_nodup hrest hothers).2 hmem
    exact (List.perm_append_right_iff others).1 ((hperm.append_left gone).symm.trans hboth)
  · intro hperm name
    have hsame : (gone ++ rest).Perm (gone ++ others) :=
      hboth.trans (hperm.symm.append_right others)
    exact ((List.perm_append_left_iff gone).1 hsame).mem_iff

/-- A connection gives up its name while the list loses the names `gone`: the list stays exact
exactly if these are the same. -/
theorem exact_after_loss {s t : Server} {id : Nat} {c : Conn} {phase : Phase}
    {l m : List (Nat × User)} {gone : List CString} (hget : s.conns[id]? = some c)
    (hA : Orderly s) (hP : OnlineListExact s) (hl : s.store.Chain s.userList l)
    (hm : t.store.Chain t.userList m) (hgone : (names l).Perm (gone ++ names m))
    (hconns : t.conns = (s.setPhase id c phase).conns)
    (hphase : Conn.liveName { c with phase := phase } = [])
    (hbuffers : ∀ sess, phase = .chatting sess →
      MessageType.ofCode sess.buf.msgType ≠ some .exit) :
    (OnlineListExact t ↔ gone.Perm c.liveName) ∧ Orderly t := by
  rcases liveNames_setPhase hget phase with ⟨others, hbefore, hafter⟩
  have hlive : (liveNames t).Perm others := by
    rw [hphase, List.nil_append] at hafter
    rwa [liveNames, hconns]
  have hnodup := hA.listed l hl
  -- The list and the live names are the same up to order.
  have hlisted : (names l).Perm (c.liveName ++ others) :=
    ((List.perm_ext_iff_of_nodup hnodup hA.live).2 ((onlineListExact_iff hl).1 hP)).trans hbefore
  refine ⟨?_, ⟨?_, ?_, ?_⟩⟩
  · rw [onlineListExact_iff hm]
    simp only [hlive.mem_iff]
    exact rest_mem_iff hnodup hgone hlisted
  · intro m' hm'
    cases NodeStore.Chain.unique hm' hm
    exact (hgone.nodup_iff.1 hnodup).of_append_right
  · exact hlive.nodup_iff.2 (hbefore.nodup_iff.1 hA.live).of_append_right
  · rw [hconns]
    exact buffers_setPhase hA hbuffers

/-- The end of a connection whose name stays on the list. -/
theorem exact_after_end {s t : Server} {id : Nat} {sockfd : Int} {sess : Session} {phase : Phase}
    (hget : s.conns[id]? = some ⟨sockfd, .chatting sess⟩) (hA : Orderly s)
    (hP : OnlineListExact s) (ht : t.store = s.store ∧ t.userList = s.userList ∧
      t.conns = (s.setPhase id ⟨sockfd, .chatting sess⟩ phase).conns)
    (hphase : Conn.liveName ⟨sockfd, phase⟩ = [])
    (hbuffers : ∀ sess, phase = .chatting sess →
      MessageType.ofCode sess.buf.msgType ≠ some .exit) :
    (OnlineListExact t ↔ sess.live = false) ∧ (OnlineListExact t → Orderly t) := by
  rcases hP with ⟨l, hl, hnames⟩
  have hm : t.store.Chain t.userList l := by rwa [ht.1, ht.2.1]
  have hsame : (names l).Perm ([] ++ names l) := List.Perm.refl _
  have hloss := exact_after_loss hget hA ⟨l, hl, hnames⟩ hl hm hsame ht.2.2 hphase hbuffers
  refine ⟨hloss.1.trans ?_, fun _ => hloss.2⟩
  cases hsess : sess.live with
  | false => simp [Conn.liveName, hsess]
  | true => simp [Conn.liveName, hsess]

/-- An EXIT request in the name `n`. -/
theorem exact_after_exit {s t : Server} {id : Nat} {sockfd : Int} {sess : Session} {n : CString}
    {st : Store} (hget : s.conns[id]? = some ⟨sockfd, .chatting sess⟩) (hA : Orderly s)
    (hP : OnlineListExact s)
    (hdelete : deleteNode s.store s.userList { User.zero with userName := n } = .ok st)
    (ht : t.store = st ∧ t.userList = s.userList ∧
      t.conns = (s.setPhase id ⟨sockfd, .chatting sess⟩ .closed).conns) :
    (OnlineListExact t ↔
        if sess.live = true then n = sess.user.userName ∧ headUser s ≠ some n
        else alreadyOnLine s.store s.userList { User.zero with userName := n } = false) ∧
      (OnlineListExact t → Orderly t) := by
  rcases hP with ⟨l, hl, hnames⟩
  rcases deleteNode_cases hl { User.zero with userName := n } with ⟨st', hst', hcases⟩
  cases Except.ok.inj (hst'.symm.trans hdelete)
  rw [headUser_eq hl, alreadyOnLine_eq hl]
  rcases hcases with ⟨hhead, hbroken⟩ | ⟨hhead, m, hm, hgone⟩
  · have hnot : ¬ OnlineListExact t := by
      rintro ⟨m, hm, _⟩
      rw [ht.1, ht.2.1] at hm
      exact hbroken.not_chain m hm
    have hmem : n ∈ names l := List.mem_of_mem_head? hhead
    refine ⟨iff_of_false hnot ?_, fun hexact => absurd hexact hnot⟩
    cases sess.live with
    | true => exact fun h => h.2 hhead
    | false => simpa using hmem
  · have hm' : t.store.Chain t.userList m := by rwa [ht.1, ht.2.1]
    have hloss := exact_after_loss hget hA ⟨l, hl, hnames⟩ hl hm' hgone ht.2.2 rfl
      fun _ h => nomatch h
    refine ⟨hloss.1.trans ?_, fun _ => hloss.2⟩
    cases hsess : sess.live with
    | false =>
        by_cases hmem : n ∈ names l
        · simp [Conn.liveName, hsess, hmem]
        · simp [Conn.liveName, hsess, hmem]
    | true =>
        -- The session's own name is on the list, so a name that is not cannot be it.
        have hown : sess.user.userName ∈ names l := by
          rw [hnames, liveNames, List.mem_flatMap]
          exact ⟨_, List.mem_of_getElem? hget, by simp [Conn.liveName, hsess]⟩
        by_cases hmem : n ∈ names l
        · simp [Conn.liveName, hsess, hmem, hhead]
        · have hne : n ≠ sess.user.userName := fun heq => hmem (heq ▸ hown)
          simp [Conn.liveName, hsess, hmem, hne]

/-- `loginUser` leaves the list alone, or adds a name that was not on it. -/
theorem loginUser_chain {st st' : Store} {userList userList' : Ref} {l : List (Nat × User)}
    (h : st.Chain userList l) {msg : Message} {user : User} {sockfd : Int} {reply : QueryReply}
    {ret : StateRet} (hlogin : loginUser st userList msg user sockfd reply =
      .ok (ret, st', userList')) :
    (ret ≠ .success ∧ st' = st ∧ userList' = userList) ∨
      (ret = .success ∧ user.userName ∉ names l ∧
        ∃ r u, u.userName = user.userName ∧ st'.Chain userList' (l ++ [(r, u)])) := by
  have honline := isOnLine_chain h (receivedUser msg user sockfd)
  have hname : (receivedUser msg user sockfd).userName = user.userName := rfl
  rw [hname] at honline
  simp only [loginUser, honline] at hlogin
  -- A name on the list is refused before the database is asked.
  by_cases hmem : user.userName ∈ names l
  · rw [decide_eq_true hmem] at hlogin
    cases hlogin
    exact Or.inl ⟨by decide, rfl, rfl⟩
  · rw [decide_eq_false hmem] at hlogin
    cases reply with
    | row =>
        rcases insertNode_chain h (receivedUser msg user sockfd) with
          ⟨st₁, list₁, r, hinsert, hchain⟩
        simp only [hinsert] at hlogin
        cases hlogin
        exact Or.inr ⟨rfl, hmem, r, copyUser .zero (receivedUser msg user sockfd), rfl, hchain⟩
    | _ =>
        cases hlogin
        exact Or.inl ⟨by decide, rfl, rfl⟩

/-- A successful login adds its name to both sides. -/
theorem exact_after_login {s t : Server} {id : Nat} {sockfd : Int} {sess : Session}
    {l : List (Nat × User)} {r : Nat} {u : User}
    (hget : s.conns[id]? = some ⟨sockfd, .accepted⟩) (hA : Orderly s)
    (hl : s.store.Chain s.userList l) (hnames : ∀ name, name ∈ names l ↔ name ∈ liveNames s)
    (hlive : sess.live = true) (hbuf : MessageType.ofCode sess.buf.msgType ≠ some .exit)
    (hnew : sess.user.userName ∉ names l) (hu : u.userName = sess.user.userName)
    (hchain : t.store.Chain t.userList (l ++ [(r, u)]))
    (hconns : t.conns = (s.setPhase id ⟨sockfd, .accepted⟩ (.chatting sess)).conns) :
    OnlineListExact t ∧ Orderly t := by
  rcases liveNames_setPhase hget (.chatting sess) with ⟨others, hbefore, hafter⟩
  have hsame : liveNames t = liveNames (s.setPhase id ⟨sockfd, .accepted⟩ (.chatting sess)) := by
    rw [liveNames, liveNames, hconns]
  have haccepted : Conn.liveName ⟨sockfd, .accepted⟩ = [] := rfl
  have hname : Conn.liveName ⟨sockfd, .chatting sess⟩ = [sess.user.userName] := by
    simp [Conn.liveName, hlive]
  rw [haccepted, List.nil_append] at hbefore
  rw [← hsame] at hafter
  -- One name is new on both sides, and it was on neither.
  have hafter' : (liveNames t).Perm (sess.user.userName :: liveNames s) := by
    have hcons : (liveNames t).Perm (sess.user.userName :: others) := by simpa [hname] using hafter
    exact hcons.trans (hbefore.symm.cons _)
  have hlisted : (names (l ++ [(r, u)])).Perm (sess.user.userName :: names l) := by
    have hsnoc : names (l ++ [(r, u)]) = names l ++ [sess.user.userName] := by simp [names, hu]
    rw [hsnoc]
    exact List.perm_append_singleton _ _
  refine ⟨⟨_, hchain, ?_⟩, ⟨?_, ?_, ?_⟩⟩
  · intro name
    rw [hlisted.mem_iff, hafter'.mem_iff, List.mem_cons, List.mem_cons, hnames]
  · intro m hm
    cases NodeStore.Chain.unique hm hchain
    exact hlisted.nodup_iff.2 (List.nodup_cons.2 ⟨hnew, hA.listed l hl⟩)
  · rw [hnames] at hnew
    exact hafter'.nodup_iff.2 (List.nodup_cons.2 ⟨hnew, hA.live⟩)
  · rw [hconns]
    refine buffers_setPhase hA ?_
    intro sess' hsess'
    cases hsess'
    exact hbuf

theorem exact_after_first {s t : Server} {id : Nat} {sockfd : Int} {recv : FirstRecv}
    (hget : s.conns[id]? = some ⟨sockfd, .accepted⟩) (hA : Orderly s) (hP : OnlineListExact s)
    (hstep : handleRequest s id ⟨sockfd, .accepted⟩ recv = .ok t) :
    OnlineListExact t ∧ Orderly t := by
  -- A connection that gets no live session changes nothing.
  have hquiet : ∀ phase sent, Conn.liveName ⟨sockfd, phase⟩ = [] →
      (∀ sess, phase = .chatting sess → MessageType.ofCode sess.buf.msgType ≠ some .exit) →
      OnlineListExact ((s.setPhase id ⟨sockfd, .accepted⟩ phase).send sent) ∧
        Orderly ((s.setPhase id ⟨sockfd, .accepted⟩ phase).send sent) := by
    intro phase sent hname hbuffers
    rcases hP with ⟨l, hl, hnames⟩
    have hsame : (names l).Perm ([] ++ names l) := List.Perm.refl _
    have hloss := exact_after_loss (t := (s.setPhase id ⟨sockfd, .accepted⟩ phase).send sent) hget
      hA ⟨l, hl, hnames⟩ hl hl hsame rfl hname hbuffers
    exact ⟨hloss.1.2 (List.Perm.refl _), hloss.2⟩
  cases recv with
  | failed =>
      cases hstep
      have hclosed := hquiet .closed [] rfl fun _ h => nomatch h
      simpa [Server.send] using hclosed
  | received msg user select insert =>
      simp only [handleRequest] at hstep
      split at hstep
      · cases hstep
        exact hquiet .closed _ rfl fun _ h => nomatch h
      · split at hstep
        · cases hstep
        · rename_i ret store userList hlogin
          cases hstep
          rcases hP with ⟨l, hl, hnames⟩
          have hzero : MessageType.ofCode Message.zero.msgType ≠ some .exit := by decide
          rcases loginUser_chain hl hlogin with ⟨hret, rfl, rfl⟩ | ⟨rfl, hnew, r, u, hu, hchain⟩
          · refine hquiet (.chatting ⟨user, _, select, ret, .zero, false⟩) _ ?_ ?_
            · simp [Conn.liveName, Session.live, hret]
            · intro sess hsess
              cases hsess
              exact hzero
          · exact exact_after_login hget hA hl hnames rfl hzero hnew hu hchain rfl
      · cases hstep
        have hclosed := hquiet .closed [] rfl fun _ h => nomatch h
        simpa [Server.send] using hclosed

/-- A session that goes on with another record in its buffer keeps its name. -/
theorem exact_after_record {s t : Server} {id : Nat} {sockfd : Int} {sess : Session}
    {msg : Message} (hget : s.conns[id]? = some ⟨sockfd, .chatting sess⟩) (hA : Orderly s)
    (hP : OnlineListExact s) (hexit : MessageType.ofCode msg.msgType ≠ some .exit)
    (ht : t.store = s.store ∧ t.userList = s.userList ∧
      t.conns = (s.setPhase id ⟨sockfd, .chatting sess⟩
        (.chatting { sess with buf := msg })).conns) :
    OnlineListExact t ∧ Orderly t := by
  rcases liveNames_setPhase hget (.chatting { sess with buf := msg }) with
    ⟨others, hbefore, hafter⟩
  have hname : Conn.liveName ⟨sockfd, .chatting { sess with buf := msg }⟩ =
      Conn.liveName ⟨sockfd, .chatting sess⟩ := rfl
  have hlive : (liveNames t).Perm (liveNames s) := by
    rw [hname] at hafter
    rw [liveNames, ht.2.2]
    exact hafter.trans hbefore.symm
  have hbuffers : ∀ sess', Phase.chatting { sess with buf := msg } = .chatting sess' →
      MessageType.ofCode sess'.buf.msgType ≠ some .exit := by
    intro sess' hsess'
    cases hsess'
    exact hexit
  refine exact_of_quiet hA hP ht.1 ht.2.1 hlive ?_
  rw [ht.2.2]
  exact buffers_setPhase hA hbuffers

theorem exact_after_chat {s t : Server} {id : Nat} {sockfd : Int} {sess : Session}
    {recv : ChatRecv} {db : ChatReplies}
    (hget : s.conns[id]? = some ⟨sockfd, .chatting sess⟩) (hA : Orderly s)
    (hP : OnlineListExact s)
    (hstep : enterChat s id ⟨sockfd, .chatting sess⟩ sess recv db = .ok t) :
    (OnlineListExact t ↔ EndsProperly s (.chat id recv db)) ∧ (OnlineListExact t → Orderly t) := by
  have hbuf := hA.buffers _ (List.mem_of_getElem? hget) sess rfl
  have hends : ∀ {p : Session → Prop},
      (∀ sockfd' sess', s.conns[id]? = some ⟨sockfd', .chatting sess'⟩ → p sess') ↔ p sess := by
    intro p
    constructor
    · intro h
      exact h _ _ hget
    · intro h sockfd' sess' hget'
      rw [hget] at hget'
      cases hget'
      exact h
  -- The three results of `recv`: end of the connection, error, record.
  cases recv with
  | eof =>
      cases hstep
      rw [EndsProperly, hends]
      exact exact_after_end hget hA hP ⟨rfl, rfl, rfl⟩ rfl fun _ h => nomatch h
  | failed =>
      simp only [enterChat, Session.receive] at hstep
      split at hstep
      · cases hstep
      · rename_i o hserve
        -- The record left in the buffer is served again; it is not an EXIT request.
        rcases serveRequest_keeps hserve hbuf with ⟨hstore, hstays⟩
        rw [hstays, hstore, if_pos rfl] at hstep
        cases hstep
        rw [EndsProperly, hends]
        refine exact_after_end hget hA hP ⟨rfl, rfl, rfl⟩ ?_ ?_
        · simp [Conn.liveName, Session.live]
        · intro sess' hsess'
          cases hsess'
          exact hbuf
  | received msg =>
      rw [EndsProperly, hends]
      simp only [enterChat, Session.receive] at hstep
      split at hstep
      · cases hstep
      · rename_i o hserve
        by_cases hexit : MessageType.ofCode msg.msgType = some .exit
        · rcases hP with ⟨l, hl, hnames⟩
          rcases deleteNode_cases hl { User.zero with userName := msg.sendName } with
            ⟨st, hdelete, _⟩
          have ho := serveRequest_exit hserve hexit hdelete
          subst ho
          cases hstep
          dsimp only
          rw [imp_iff_right hexit]
          exact exact_after_exit hget hA ⟨l, hl, hnames⟩ hdelete ⟨rfl, rfl, rfl⟩
        · rcases serveRequest_keeps hserve hexit with ⟨hstore, hstays⟩
          rw [hstays, hstore, if_pos rfl] at hstep
          have hquiet : OnlineListExact t ∧ Orderly t := by
            cases hstep
            exact exact_after_record hget hA hP hexit ⟨rfl, rfl, rfl⟩
          exact ⟨iff_of_true hquiet.1 fun h => absurd h hexit, fun _ => hquiet.2⟩

theorem exact_step {s t : Server} {e : Event} (hA : Orderly s) (hP : OnlineListExact s)
    (hstep : serverStep s e = .ok t) :
    (OnlineListExact t ↔ EndsProperly s e) ∧ (OnlineListExact t → Orderly t) := by
  cases e with
  | connect sockfd =>
      cases hstep
      have hlive : liveNames { s with conns := s.conns ++ [⟨sockfd, .accepted⟩] } =
          liveNames s := by
        simp [liveNames, Conn.liveName]
      have hquiet := exact_of_quiet (t := { s with conns := s.conns ++ [⟨sockfd, .accepted⟩] })
        hA hP rfl rfl (List.Perm.of_eq hlive) (by
          intro c hc sess hsess
          rcases List.mem_append.1 hc with hold | hnew
          · exact hA.buffers c hold sess hsess
          · cases List.mem_singleton.1 hnew
            cases hsess)
      exact ⟨iff_of_true hquiet.1 trivial, fun _ => hquiet.2⟩
  | first id recv =>
      simp only [serverStep] at hstep
      split at hstep
      · rename_i sockfd hget
        have hfirst := exact_after_first hget hA hP hstep
        exact ⟨iff_of_true hfirst.1 trivial, fun _ => hfirst.2⟩
      · cases hstep
  | chat id recv db =>
      simp only [serverStep] at hstep
      split at hstep
      · exact exact_after_chat ‹_› hA hP hstep
      · cases hstep

/-! ## Whole runs -/

theorem orderly_initial : Orderly server.init := by
  refine ⟨?_, List.nodup_nil, fun c hc => nomatch hc⟩
  intro l hl
  cases l with
  | nil => exact List.nodup_nil
  | cons x l => cases hl.1

/-- In every run the online list holds exactly the names of the live sessions in all states,
exactly if every session ends properly in the steps that the server survives. -/
theorem online_list_exact_iff (events : List Event) :
    server.EveryState OnlineListExact server.init events ↔
      server.EveryTakenStep EndsProperly server.init events := by
  have hinit : OnlineListExact server.init := ⟨[], rfl, fun _ => Iff.rfl⟩
  exact server.everyState_iff_everyTakenStep
    (fun s e t hA hP hstep => exact_step hA hP hstep) orderly_initial hinit events

/-- One client logs in and its connection is closed. -/
def lostClient : List Event :=
  [.connect 4, .first 0 (.received (request .login) .zero .row .cannotOpen),
    .chat 0 .eof ⟨.cannotOpen, .cannotOpen⟩]

/-- The name of the lost client stays on the list. -/
theorem lost_client_stays_online :
    ¬ ∀ events, server.EveryState OnlineListExact server.init events := by
  intro h
  rcases (((h lostClient).2 _ rfl).2 _ rfl).2 _ rfl with ⟨l, hl, hnames⟩
  cases l with
  | nil => cases hl
  | cons x l =>
      -- Whatever is on the list, no session is live any more.
      have hlive := (hnames x.2.userName).1 List.mem_cons_self
      cases hlive

end ChatRoom
end LinuxLearn
