import LinuxLearn.Lib.CArray
import LinuxLearn.ChatRoom.Framing

/-!
# Assembly — the replies to list and history requests in the content array

`viewUserList` and `viewRecords` append one string after the other to the content of a `Message`
without asking for its size.  Here the content is the array of the source; `userListContent_eq` and
`recordsContent_eq` relate it to the strings of `Chat`, which leave the size of the array out.
-/

namespace LinuxLearn
namespace ChatRoom

open Lib

/-- `char content[2048]` -/
abbrev CONTENT_SIZE : Nat := 2048

/-- A string operation writes into its array or past it. -/
def inBounds : Option Text → Except Fault Text
  | none => .error .outOfBounds
  | some a => .ok a

/-! ## The functions -/

/-- One pass of the loop of `viewUserList`. -/
def appendUser (content : Text) (user : User) : Option Text := do
  let content ← strcat content [tab]
  strcat content user.userName

/-- The content that `viewUserList` sends. -/
def userListContent (st : Store) (userList : Ref) : Except Fault Text :=
  let content := cleared CONTENT_SIZE
  match userList with
  | none => inBounds (strcpy content (stateMsg .allNotOnline))
  | some _ =>
      match st.collect st.fuel userList with
      | .error e => .error (.pointer e)
      | .ok users => inBounds do
          let content ← strcpy content []
          users.foldlM appendUser content

/-- One pass of the loop of `viewRecords`; `sprintf` writes to the array `record`. -/
def appendRecord (content : Text) (r : Record) : Option Text := do
  let record ← strcpy (cleared MAX_LINE) r.text
  strcat content (stringIn record)

/-- `content[strlen(content) - 1] = '\\0'`; without a byte the index is `-1`. -/
def cutLast (content : Text) : Option Text :=
  if strlen content = 0 then none else some (content.set (strlen content - 1) 0)

/-- The content that `viewRecords` sends. -/
def recordsContent (db : RecordsReply) : Except Fault Text :=
  let content := cleared CONTENT_SIZE
  match db with
  | .cannotOpen => inBounds (strcpy content (stateMsg .failed))
  | .cannotSelect => inBounds (strcpy content (stateMsg .failed))
  | .table rows => inBounds do
      let content ← rows.foldlM appendRecord content
      cutLast content

/-! ## What they should send -/

/-- A tab and the name of every user, in list order. -/
def listing (l : List (Nat × User)) : CString :=
  l.flatMap fun x => tab :: x.2.userName

/-- No write leaves the array, and it ends up holding the listing. -/
def UsersAssembled (st : Store) (userList : Ref) (l : List (Nat × User)) : Prop :=
  ∃ content, userListContent st userList = .ok content ∧ content.length = CONTENT_SIZE ∧
    Holds content (listing l)

/-- No write leaves the array, and it ends up holding the rows without the last newline. -/
def RecordsAssembled (rows : List Record) : Prop :=
  ∃ content, recordsContent (.table rows) = .ok content ∧ content.length = CONTENT_SIZE ∧
    Holds content (rows.flatMap Record.text).dropLast

/-- The strings of a row. -/
def Record.Terminated (r : Record) : Prop :=
  (0 : UInt8) ∉ r.sendName ∧ (0 : UInt8) ∉ r.msgTime ∧ (0 : UInt8) ∉ r.content

theorem zero_notMem_text {r : Record} (h : r.Terminated) : (0 : UInt8) ∉ r.text := by
  simp [Record.text, h.1, h.2.1, h.2.2, tab, newline]

theorem length_text (r : Record) :
    r.text.length = r.sendName.length + r.msgTime.length + r.content.length + 5 := by
  simp only [Record.text, List.length_append, List.length_cons, List.length_nil]
  omega

/-! ## The loops -/

theorem foldlM_appendUser (content : Text) (users : List User) :
    users.foldlM appendUser content =
      (users.flatMap fun user => [[tab], user.userName]).foldlM strcat content := by
  induction users generalizing content with
  | nil => rfl
  | cons user users ih =>
      rw [List.foldlM_cons, List.flatMap_cons, List.foldlM_append]
      have hpass : [[tab], user.userName].foldlM strcat content = appendUser content user := by
        simp [appendUser]
      rw [hpass]
      exact bind_congr ih

theorem appendRecord_eq {content v : Text} (h : Holds content v) (hsize : content.length ≤ MAX_LINE)
    {r : Record} (hr : r.Terminated) : appendRecord content r = strcat content r.text := by
  by_cases hfits : r.text.length < MAX_LINE
  · rcases strcpy_eq_some (a := cleared MAX_LINE) (zero_notMem_text hr)
      (by rwa [length_cleared]) with ⟨record, hrecord, _, hholds⟩
    simp [appendRecord, hrecord, hholds.stringIn_eq]
  · -- A row that is too long for `record` is too long for the content.
    have hlong : strcpy (cleared MAX_LINE) r.text = none :=
      strcpy_eq_none (by rw [length_cleared]; exact Nat.not_lt.1 hfits)
    rw [strcat_eq_none h (by omega), appendRecord, hlong]
    rfl

theorem foldlM_appendRecord {content v : Text} (h : Holds content v)
    (hsize : content.length ≤ MAX_LINE) {rows : List Record} (hrows : ∀ r ∈ rows, r.Terminated) :
    rows.foldlM appendRecord content = (rows.map Record.text).foldlM strcat content := by
  induction rows generalizing content v with
  | nil => rfl
  | cons r rows ih =>
      have hr := hrows r List.mem_cons_self
      rw [List.map_cons, List.foldlM_cons, List.foldlM_cons, appendRecord_eq h hsize hr]
      by_cases hfits : v.length + r.text.length < content.length
      · rcases strcat_eq_some h (zero_notMem_text hr) hfits with ⟨b, hb, hlength, hholds⟩
        rw [hb]
        exact ih hholds (by rwa [hlength]) fun r' hr' => hrows r' (List.mem_cons_of_mem _ hr')
      · rw [strcat_eq_none h (Nat.not_lt.1 hfits)]
        rfl

/-! ## When the replies are right -/

theorem inBounds_eq_ok {r : Option Text} {content : Text} :
    inBounds r = .ok content ↔ r = some content := by
  cases r <;> simp [inBounds]

theorem flatten_users (l : List (Nat × User)) :
    ((l.map Prod.snd).flatMap fun user => [[tab], user.userName]).flatten = listing l := by
  induction l with
  | nil => rfl
  | cons x l ih => simpa [listing] using ih

theorem length_listing (l : List (Nat × User)) :
    (listing l).length = (l.map fun x => x.2.userName.length + 1).sum := by
  simp [listing, List.length_flatMap]

/-- Without any user the reply is a text of its own. -/
theorem userListContent_none (st : Store) : ¬ UsersAssembled st none [] := by
  rintro ⟨content, hcontent, _, hholds⟩
  have hzero : (0 : UInt8) ∉ stateMsg .allNotOnline := by decide +kernel
  have hlength : (stateMsg .allNotOnline).length = 16 := by decide +kernel
  have hfits : (stateMsg .allNotOnline).length < (cleared CONTENT_SIZE).length := by
    rw [hlength, length_cleared]
    decide
  rcases strcpy_eq_some hzero hfits with ⟨b, hb, _, htext⟩
  have hsame : b = content := by
    rw [userListContent, hb] at hcontent
    exact Except.ok.inj hcontent
  have hlengths := htext.strlen_eq
  rw [hsame, hholds.strlen_eq, hlength] at hlengths
  exact absurd hlengths (by decide)

theorem userListContent_some {st : Store} {p : Nat} {l : List (Nat × User)}
    (h : st.Chain (some p) l) :
    ∃ b, b.length = CONTENT_SIZE ∧ Holds b [] ∧ userListContent st (some p) =
      inBounds (((l.map Prod.snd).flatMap fun user => [[tab], user.userName]).foldlM strcat b) := by
  rcases strcpy_eq_some (a := cleared CONTENT_SIZE) List.not_mem_nil
    (by rw [length_cleared]; decide) with ⟨b, hb, hlength, hempty⟩
  refine ⟨b, by rw [hlength, length_cleared], hempty, ?_⟩
  have hcollect := NodeStore.collect_chain h (Nat.le_of_lt (fuel_of_chain h))
  simp only [userListContent, hcollect, hb]
  exact congrArg inBounds (foldlM_appendUser b _)

/-- Either all the names fit into the array, or some write leaves it. -/
theorem userListContent_cases {st : Store} {p : Nat} {l : List (Nat × User)}
    (h : st.Chain (some p) l) (hnames : ∀ x ∈ l, (0 : UInt8) ∉ x.2.userName) :
    ((listing l).length < CONTENT_SIZE ∧ UsersAssembled st (some p) l) ∨
      (CONTENT_SIZE ≤ (listing l).length ∧
        userListContent st (some p) = .error .outOfBounds) := by
  rcases userListContent_some h with ⟨b, hlength, hempty, hcontent⟩
  have hstrings : ∀ w ∈ (l.map Prod.snd).flatMap fun user => [[tab], user.userName],
      (0 : UInt8) ∉ w := by
    intro w hw
    rcases List.mem_flatMap.1 hw with ⟨user, huser, hw⟩
    rcases List.mem_map.1 huser with ⟨x, hx, rfl⟩
    rcases List.mem_pair.1 hw with rfl | rfl
    · decide
    · exact hnames x hx
  have hfold := foldlM_strcat hempty hstrings
  rw [flatten_users, hlength, List.length_nil, Nat.zero_add, List.nil_append] at hfold
  rw [UsersAssembled, hcontent]
  rcases hfold with ⟨hfits, content, hsome, hassembled⟩ | ⟨hlong, hnone⟩
  · exact Or.inl ⟨hfits, content, inBounds_eq_ok.2 hsome, hassembled⟩
  · refine Or.inr ⟨hlong, ?_⟩
    rw [hnone]
    rfl

theorem usersAssembled_iff {st : Store} {userList : Ref} {l : List (Nat × User)}
    (h : st.Chain userList l) (hnames : ∀ x ∈ l, (0 : UInt8) ∉ x.2.userName) :
    UsersAssembled st userList l ↔
      l ≠ [] ∧ (l.map fun x => x.2.userName.length + 1).sum < CONTENT_SIZE := by
  rw [← length_listing]
  cases userList with
  | none =>
      have hl : l = [] := by
        cases l with
        | nil => rfl
        | cons x l => cases h.1
      subst hl
      exact iff_of_false (userListContent_none st) fun hne => hne.1 rfl
  | some p =>
      have hl : l ≠ [] := by
        rintro rfl
        cases h
      rcases userListContent_cases h hnames with ⟨hfits, hassembled⟩ | ⟨hlong, herror⟩
      · exact iff_of_true hassembled ⟨hl, hfits⟩
      · refine iff_of_false ?_ fun hfits => absurd hfits.2 (Nat.not_lt.2 hlong)
        rintro ⟨content, hcontent, _⟩
        rw [herror] at hcontent
        cases hcontent

theorem length_rows (rows : List Record) :
    (rows.flatMap Record.text).length =
      (rows.map fun r => r.sendName.length + r.msgTime.length + r.content.length + 5).sum := by
  simp only [List.length_flatMap, length_text]

/-- Each row of the reply is a string of some bytes. -/
theorem flatMap_text_eq_nil {rows : List Record} : rows.flatMap Record.text = [] ↔ rows = [] := by
  cases rows with
  | nil => simp
  | cons r rows => simp [Record.text]

/-- Without any row the last byte of an empty string is cut. -/
theorem recordsContent_no_rows : recordsContent (.table []) = .error .outOfBounds := by
  have hempty : Holds (cleared CONTENT_SIZE) [] := holds_cleared (by decide)
  have hzero : strlen (cleared CONTENT_SIZE) = 0 := hempty.strlen_eq
  simp [recordsContent, cutLast, hzero, inBounds]

/-- Either all the rows fit into the array, or some write leaves it. -/
theorem recordsContent_cases {rows : List Record} (hrows : ∀ r ∈ rows, r.Terminated)
    (hne : rows ≠ []) :
    ((rows.flatMap Record.text).length < CONTENT_SIZE ∧ RecordsAssembled rows) ∨
      (CONTENT_SIZE ≤ (rows.flatMap Record.text).length ∧
        recordsContent (.table rows) = .error .outOfBounds) := by
  have hempty : Holds (cleared CONTENT_SIZE) [] := holds_cleared (by decide)
  have hsize : (cleared CONTENT_SIZE).length ≤ MAX_LINE := by
    rw [length_cleared]
    decide
  have hstrings : ∀ w ∈ rows.map Record.text, (0 : UInt8) ∉ w := by
    intro w hw
    rcases List.mem_map.1 hw with ⟨r, hr, rfl⟩
    exact zero_notMem_text (hrows r hr)
  have hfold := foldlM_strcat hempty hstrings
  rw [← foldlM_appendRecord hempty hsize hrows, length_cleared, List.length_nil, Nat.zero_add,
    List.nil_append, ← List.flatMap_def] at hfold
  rw [RecordsAssembled, recordsContent]
  rcases hfold with ⟨hfits, b, hb, hlength, hholds⟩ | ⟨hlong, hnone⟩
  · -- There is a last byte to cut.
    have hbytes : rows.flatMap Record.text ≠ [] := fun heq => hne (flatMap_text_eq_nil.1 heq)
    have hpos : ¬ strlen b = 0 := by
      rw [hholds.strlen_eq, List.length_eq_zero_iff]
      exact hbytes
    refine Or.inl ⟨hfits, b.set (strlen b - 1) 0, ?_, ?_, hholds.set_last hbytes⟩
    · simp [hb, cutLast, hpos, inBounds]
    · rw [List.length_set, hlength]
  · refine Or.inr ⟨hlong, ?_⟩
    rw [hnone]
    rfl

theorem recordsAssembled_iff {rows : List Record} (hrows : ∀ r ∈ rows, r.Terminated) :
    RecordsAssembled rows ↔
      rows ≠ [] ∧ (rows.map fun r =>
        r.sendName.length + r.msgTime.length + r.content.length + 5).sum < CONTENT_SIZE := by
  rw [← length_rows]
  by_cases hne : rows = []
  · subst hne
    refine iff_of_false ?_ fun hne => hne.1 rfl
    rintro ⟨content, hcontent, _⟩
    rw [recordsContent_no_rows] at hcontent
    cases hcontent
  · rcases recordsContent_cases hrows hne with ⟨hfits, hassembled⟩ | ⟨hlong, herror⟩
    · exact iff_of_true hassembled ⟨hne, hfits⟩
    · refine iff_of_false ?_ fun hfits => absurd hfits.2 (Nat.not_lt.2 hlong)
      rintro ⟨content, hcontent, _⟩
      rw [herror] at hcontent
      cases hcontent

/-! ## The strings of `Chat` -/

section Strings

variable {st : Store} {userList : Ref} {l : List (Nat × User)}

/-- The listing in the array is the content of the reply. -/
theorem viewUserList_content (h : st.Chain userList l) (hassembled : UsersAssembled st userList l)
    (msg : Message) (sockfd : Int) :
    ∃ content, userListContent st userList = .ok content ∧ viewUserList st userList msg sockfd =
      .ok (.success, [⟨sockfd, { replyTo msg with content := stringIn content }⟩]) := by
  rcases hassembled with ⟨content, hcontent, hlength, hholds⟩
  refine ⟨content, hcontent, ?_⟩
  cases userList with
  | none =>
      cases l with
      | nil => exact absurd ⟨content, hcontent, hlength, hholds⟩ (userListContent_none st)
      | cons x l => cases h.1
  | some p =>
      have hcollect := NodeStore.collect_chain h (Nat.le_of_lt (fuel_of_chain h))
      simp [viewUserList, hcollect, hholds.stringIn_eq, listing, List.flatMap_map]

theorem viewRecords_content {rows : List Record} (hassembled : RecordsAssembled rows)
    (msg : Message) (sockfd : Int) :
    ∃ content message, recordsContent (.table rows) = .ok content ∧
      viewRecords msg sockfd (.table rows) = .ok (.success, [⟨sockfd, message⟩]) ∧
        message.content = stringIn content := by
  rcases hassembled with ⟨content, hcontent, _, hholds⟩
  have hne : rows ≠ [] := by
    rintro rfl
    rw [recordsContent_no_rows] at hcontent
    cases hcontent
  have hbytes : rows.flatMap Record.text ≠ [] := fun heq => hne (flatMap_text_eq_nil.1 heq)
  refine ⟨content, { replyTo msg with
    recvName := if msg.recvName = allUsers then [] else msg.recvName
    content := (rows.flatMap Record.text).dropLast }, hcontent, ?_, hholds.stringIn_eq.symm⟩
  rw [viewRecords, if_neg hbytes]

end Strings

/-! ## Both replies -/

/-- Exactly when the listing and the rows, with one zero each, fit into the array, and there is a
user to list and a row to show. -/
theorem replies_assembled_iff {st : Store} {userList : Ref} {l : List (Nat × User)}
    (h : st.Chain userList l) (hnames : ∀ x ∈ l, (0 : UInt8) ∉ x.2.userName)
    {rows : List Record} (hrows : ∀ r ∈ rows, r.Terminated) :
    (UsersAssembled st userList l ↔
        l ≠ [] ∧ (l.map fun x => x.2.userName.length + 1).sum < CONTENT_SIZE) ∧
      (RecordsAssembled rows ↔
        rows ≠ [] ∧ (rows.map fun r =>
          r.sendName.length + r.msgTime.length + r.content.length + 5).sum < CONTENT_SIZE) :=
  ⟨usersAssembled_iff h hnames, recordsAssembled_iff hrows⟩

/-- Two users, and the two rows of what they said. -/
theorem two_users_and_two_rows :
    let ann := { User.zero with userName := ascii "ann" }
    let bob := { User.zero with userName := ascii "bob" }
    UsersAssembled ⟨[some ⟨ann, some 1⟩, some ⟨bob, none⟩]⟩ (some 0) [(0, ann), (1, bob)] ∧
      RecordsAssembled [⟨ascii "ann", ascii "hi", ascii "12:00"⟩,
        ⟨ascii "bob", ascii "hello", ascii "12:01"⟩] := by
  intro ann bob
  have h : NodeStore.Chain ⟨[some ⟨ann, some 1⟩, some ⟨bob, none⟩]⟩ (some 0) [(0, ann), (1, bob)] :=
    ⟨rfl, some 1, rfl, rfl, none, rfl, rfl⟩
  have hnames : ∀ x ∈ [(0, ann), (1, bob)], (0 : UInt8) ∉ x.2.userName := by
    rw [List.forall_mem_cons, List.forall_mem_singleton]
    exact ⟨by decide, by decide⟩
  have hrows : ∀ r ∈ [(⟨ascii "ann", ascii "hi", ascii "12:00"⟩ : Record),
      ⟨ascii "bob", ascii "hello", ascii "12:01"⟩], r.Terminated := by
    rw [List.forall_mem_cons, List.forall_mem_singleton]
    exact ⟨⟨by decide, by decide, by decide⟩, by decide, by decide, by decide⟩
  have hboth := replies_assembled_iff h hnames hrows
  exact ⟨hboth.1.2 ⟨List.cons_ne_nil _ _, by decide⟩, hboth.2.2 ⟨List.cons_ne_nil _ _, by decide⟩⟩

/-- A list of 103 users with names of 19 bytes is written past the array, and a table without rows
is cut before it. -/
theorem long_list_and_empty_table :
    (∃ st userList l, st.Chain userList l ∧ l.length = 103 ∧
        (∀ x ∈ l, x.2.userName.length = 19 ∧ (0 : UInt8) ∉ x.2.userName) ∧
        userListContent st userList = .error .outOfBounds) ∧
      recordsContent (.table []) = .error .outOfBounds := by
  refine ⟨?_, recordsContent_no_rows⟩
  let long : User := { User.zero with userName := List.replicate 19 97 }
  have hnull : NodeStore.Chain (NodeStore.empty : Store) none [] := rfl
  rcases foldlM_insertNode_chain hnull (List.replicate 103 long) with
    ⟨st, userList, l, _, hchain, husers⟩
  rw [List.map_nil, List.nil_append, List.map_replicate] at husers
  have hlength : l.length = 103 := by simpa using congrArg List.length husers
  have hall : ∀ x ∈ l, x.2.userName = List.replicate 19 97 := by
    intro x hx
    have hmem : x.2 ∈ List.replicate 103 (copyUser .zero long) := by
      rw [← husers]
      exact List.mem_map_of_mem hx
    rw [List.eq_of_mem_replicate hmem]
    rfl
  have hnames : ∀ x ∈ l, x.2.userName.length = 19 ∧ (0 : UInt8) ∉ x.2.userName := by
    intro x hx
    rw [hall x hx]
    exact ⟨by decide, by decide⟩
  -- Twenty bytes for each user.
  have hsum : (listing l).length = 103 * 20 := by
    rw [length_listing, List.map_congr_left fun x hx => by rw [(hnames x hx).1],
      List.map_const', List.sum_replicate, hlength, smul_eq_mul]
  refine ⟨st, userList, l, hchain, hlength, hnames, ?_⟩
  cases userList with
  | none =>
      cases l with
      | nil => cases hlength
      | cons x l => cases hchain.1
  | some p =>
      rcases userListContent_cases hchain fun x hx => (hnames x hx).2 with ⟨hfits, _⟩ | ⟨_, herror⟩
      · rw [hsum] at hfits
        exact absurd hfits (by decide)
      · exact herror

end ChatRoom
end LinuxLearn
