import LinuxLearn.ChatRoom.History

/-!
# Order — in which order the chat history is listed

A client writes the time of a message with `ctime`, and `viewRecords` sorts by this text.  The
order of the texts is that of the weekdays by the alphabet, not that of the times.
The array for the query is taken to be large enough.
-/

namespace LinuxLearn
namespace ChatRoom

open Lib Lib.Sql

/-! ## Times -/

/-- `localtime` of a client whose clock is `offset` seconds ahead of UTC. -/
def localtime (offset t : Int) : Tm :=
  gmtime (t + offset)

def ctime (offset t : Int) : Text :=
  asctime (localtime offset t)

/-! ## Conversations -/

/-- The message is in the group or between the two users that the request names. -/
def AsksFor (msg m : Message) : Prop :=
  if recordsName msg = [] then m.recvName = []
  else
    m.sendName = msg.sendName ∧ m.recvName = recordsName msg ∨
      m.sendName = recordsName msg ∧ m.recvName = msg.sendName

/-- Two messages of the conversation that a VIEW_RECORDS request is about, stored as two rows. -/
structure Conversation (msg : Message) (table : List Insert) (m m' : Message) : Prop where
  quoteFree : ∀ s ∈ (Request.viewRecords msg).userStrings, quote ∉ s
  first : AsksFor msg m
  second : AsksFor msg m'
  stored : [m.row.record, m'.row.record].Subperm table

/-- Every list that the query may deliver has both records, the first one before the second. -/
def ListedInOrder (msg : Message) (table : List Insert) (m m' : Message) : Prop :=
  ∃ q, prepareSelect messageTable (recordsText msg) = some q ∧
    ∀ result, q.Delivers messageTable table result →
      m.row.record ∈ result ∧ m'.row.record ∈ result ∧
        ¬ [m'.row.record, m.row.record].Sublist result

section Listing

variable {msg : Message} {table : List Insert} {m m' : Message}

/-- The query selects the records asked for and sorts them by their time. -/
theorem prepareSelect_records (h : ∀ s ∈ (Request.viewRecords msg).userStrings, quote ∉ s) :
    ∃ q, prepareSelect messageTable (recordsText msg) = some q ∧
      q.order = some (ascii "msgTime") ∧
      ∀ m : Message, q.cond.holds messageTable m.row.record = true ↔ AsksFor msg m := by
  by_cases hname : recordsName msg = []
  · refine ⟨_, prepareSelect_group hname, rfl, fun m => ?_⟩
    rw [holds_group, AsksFor, if_pos hname]
    rfl
  · have hlexed := (statements_lexed_iff (.viewRecords msg)).2 h _ List.mem_cons_self
    refine ⟨_, prepareSelect_pair hname hlexed, rfl, fun m => ?_⟩
    rw [holds_pair, AsksFor, if_neg hname]
    rfl

theorem Conversation.subperm_rows (h : Conversation msg table m m') {q : Select}
    (hq : ∀ m : Message, q.cond.holds messageTable m.row.record = true ↔ AsksFor msg m) :
    [m.row.record, m'.row.record].Subperm (q.rows messageTable table) := by
  have hfirst := (hq m).2 h.first
  have hsecond := (hq m').2 h.second
  have hfilter := h.stored.filter fun row => q.cond.holds messageTable row
  have hpair : [m.row.record, m'.row.record].filter (fun row => q.cond.holds messageTable row) =
      [m.row.record, m'.row.record] := by simp [hfirst, hsecond]
  rw [hpair] at hfilter
  exact hfilter

/-- The messages are listed in order exactly if the texts of their times are in order. -/
theorem listedInOrder_iff_text (h : Conversation msg table m m') :
    ListedInOrder msg table m m' ↔ m.msgTime < m'.msgTime := by
  rcases prepareSelect_records h.quoteFree with ⟨q, hq, horder, hholds⟩
  have hsubperm := h.subperm_rows hholds
  constructor
  · rintro ⟨q', hq', hall⟩
    cases hq.symm.trans hq'
    by_contra hle
    -- The rows with the second record in front are a list to sort as well.
    rcases hsubperm with ⟨pair, hpair, hsub⟩
    rcases hsub.exists_perm_append with ⟨rest, hrest⟩
    have hswap : pair.Perm [m'.row.record, m.row.record] :=
      hpair.trans (List.Perm.swap _ _ _)
    have hrows : (m'.row.record :: m.row.record :: rest).Perm (q.rows messageTable table) :=
      (hrest.trans (hswap.append_right rest)).symm
    have hbegin : [m'.row.record, m.row.record].Sublist (m'.row.record :: m.row.record :: rest) :=
      List.sublist_append_left [m'.row.record, m.row.record] rest
    rcases Select.exists_delivers horder hrows hbegin hle with ⟨result, hdelivers, hwrong⟩
    exact (hall result hdelivers).2.2 hwrong
  · intro hlt
    refine ⟨q, hq, fun result hdelivers => ?_⟩
    have hmem : ∀ row ∈ [m.row.record, m'.row.record], row ∈ result := fun row hrow =>
      hdelivers.perm.mem_iff.2 (hsubperm.subset hrow)
    exact ⟨hmem _ (by simp), hmem _ (by simp), hdelivers.not_sublist horder hlt⟩

/-- Two messages are listed in the order in which they were sent exactly if the fields of their
local times are in that order as `ctime` writes them. -/
theorem listedInOrder_iff {offset offset' t t' : Int} (h : Conversation msg table m m')
    (htime : m.msgTime = ctime offset t) (htime' : m'.msgTime = ctime offset' t') :
    ListedInOrder msg table m m' ↔
      (localtime offset t).WrittenBefore (localtime offset' t') := by
  calc
    ListedInOrder msg table m m'
        ↔ m.msgTime < m'.msgTime := listedInOrder_iff_text h
    _ ↔ ctime offset t < ctime offset' t' := by rw [htime, htime']
    _ ↔ (localtime offset t).WrittenBefore (localtime offset' t') := asctime_lt_iff _ _

end Listing

/-- A group message of a client with the clock of UTC. -/
def sentAt (t : Int) : Message :=
  groupMessage
    { request .groupChat with
      sendName := [97]
      content := ascii "hi"
      msgTime := ctime 0 t }

theorem conversation_sentAt (t t' : Int) :
    Conversation (request .viewRecords) [(sentAt t).row.record, (sentAt t').row.record] (sentAt t)
      (sentAt t') := by
  have hname : recordsName (request .viewRecords) = [] := by
    simp [recordsName, request, Message.zero]
  refine ⟨by simp [Request.userStrings, hname], ?_, ?_, List.Subperm.refl _⟩
  · rw [AsksFor, if_pos hname]
    rfl
  · rw [AsksFor, if_pos hname]
    rfl

/-- Two messages of the first two seconds of 1970 are listed in order. -/
theorem seconds_listed_in_order :
    ListedInOrder (request .viewRecords) [(sentAt 0).row.record, (sentAt 1).row.record] (sentAt 0)
      (sentAt 1) :=
  (listedInOrder_iff (conversation_sentAt 0 1) rfl rfl).2 (by decide)

/-- The message of a Sunday is listed after that of the next day. -/
theorem sunday_listed_after_monday :
    ¬ ∀ (msg : Message) (table : List Insert) (m m' : Message) (t t' : Int), t < t' →
      Conversation msg table m m' → m.msgTime = ctime 0 t → m'.msgTime = ctime 0 t' →
        ListedInOrder msg table m m' := by
  intro h
  have hlisted := h _ _ (sentAt 259200) (sentAt 345600) 259200 345600 (by decide)
    (conversation_sentAt 259200 345600) rfl rfl
  have htext : ctime 0 259200 < ctime 0 345600 :=
    (listedInOrder_iff_text (conversation_sentAt 259200 345600)).1 hlisted
  revert htext
  decide

end ChatRoom
end LinuxLearn
