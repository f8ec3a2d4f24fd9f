import Mathlib.Data.List.TakeWhile
import LinuxLearn.Lib.CArray
import LinuxLearn.Lib.Machine
import LinuxLearn.Infrared.RedFrame

/-!
# FifoClient — the clients that read commands from a FIFO

`pipe_clnt.c` and `gree_fifo_client.c` read up to 64 bytes at a time, parse them as JSON and look
the member `t` up in a table of command words.  Both use what the parser returns without a test, and
`pipe_clnt.c` searches one entry more than its table has.  `clients_right_iff` says for which reads
this does no harm; those of the requests that `pipe_ser1.c` writes are not among them.

The functions of `cJSON` are parameters: `parse` is null on a malformed text, `getObjectItem` is
null for a missing member.  What `client_send_ok` copies from behind the zero of a command word is
not modelled, and its FIFO is taken as open.
-/

namespace LinuxLearn
namespace Pipe

open Lib

inductive Fault
  | nullDereference
  | outOfBounds
  deriving DecidableEq, Repr

/-! ## cJSON -/

/-- A `cJSON` item; `other` is one of the types without a string or a number, of which `true` has
the `valueint` 1. -/
inductive JsonItem
  | string (s : Text)
  | number (n : Int)
  | other (n : Int)
  deriving DecidableEq, Repr

namespace JsonItem

def valuestring : JsonItem → Option Text
  | string s => some s
  | number _ => none
  | other _ => none

def valueint : JsonItem → Int
  | string _ => 0
  | number n => n
  | other n => n

def isNumber : JsonItem → Bool
  | string _ => false
  | number _ => true
  | other _ => false

end JsonItem

structure CJson where
  Doc : Type
  parse : Text → Option Doc
  getObjectItem : Doc → Text → Option JsonItem

/-! ## The clients -/

abbrev JSON_BUF : Nat := 64
abbrev BUFFER_SIZE : Nat := 20

/-- What the two clients differ in. -/
structure Client (σ : Type) where
  cntlWordNums : Nat
  /-- the entries of `ctrl_word` that are set -/
  words : List Text
  /-- the entries that are null -/
  nulls : Nat
  /-- the conversion to the type of `status` -/
  toStatus : Int → Int
  /-- the `switch` over the index -/
  handle : Nat → Int → σ → σ
  /-- the number that `client_send_ok` sends -/
  ackStatus : Int → Int

def pipeClnt : Client Unit where
  cntlWordNums := 12
  words := ["pow", "auto", "cold_mode", "hot_mode", "lesswet_mode", "air_supy", "windsped", "temp",
    "left_right", "up_down", "sleep"].map ascii
  nulls := 0
  toStatus := fun n => n
  -- All cases are empty.
  handle := fun _ _ s => s
  ackStatus := fun _ => 1

def greeFifoClient (T : Infrared.Target) : Client Infrared.Frame where
  cntlWordNums := Infrared.CNTL_WORD_NUMS
  words := Infrared.ctrlWord
  nulls := 4
  toStatus := fun n => n % 256
  handle := fun handleIndex status redF0 =>
    Infrared.handleWord T redF0 handleIndex (UInt8.ofInt status)
  ackStatus := fun status => status

/-- A read of the server's FIFO, and what stands behind `jsonBuffer` in memory. -/
structure Read where
  data : Text
  behind : Text
  pos : data ≠ []
  fits : data.length ≤ JSON_BUF

/-- The string at `jsonBuffer`, which was cleared before the read. -/
def Read.text (r : Read) : Text :=
  stringIn (r.data ++ cleared (JSON_BUF - r.data.length) ++ r.behind)

/-- The string that the read itself holds. -/
def Read.own (r : Read) : Text :=
  stringIn r.data

structure Ack where
  t : Option Text
  s : Int
  deriving DecidableEq, Repr

/-- The control state after a read, the commands that were executed and the replies. -/
structure Outcome (σ : Type) where
  state : σ
  executed : List (Nat × Int)
  acks : List Ack
  deriving DecidableEq, Repr

section Functions

variable {σ : Type} (cj : CJson) (c : Client σ)

def Client.ctrlWord : List (Option Text) :=
  c.words.map some ++ List.replicate c.nulls none

/-- The loop of `ctl_word_handle` from entry `i` on, with `n` entries to go. -/
def searchWord (ctrlWord : List (Option Text)) (buffer : Text) (i : Nat) :
    Nat → Except Fault (Option Nat)
  | 0 => .ok none
  | n + 1 =>
      match ctrlWord[i]? with
      | none => .error .outOfBounds
      | some none => .error .nullDereference
      | some (some w) =>
          if buffer = w then .ok (some i) else searchWord ctrlWord buffer (i + 1) n

/-- What a found command, or none, leads to. -/
def Client.answer (s : σ) : Option (Nat × Int) → Outcome σ
  | none => ⟨s, [], []⟩
  | some (handleIndex, status) =>
      { state := c.handle handleIndex status s
        executed := [(handleIndex, status)]
        acks := [⟨c.ctrlWord[handleIndex]?.join, c.ackStatus status⟩] }

def ctlWordHandle (s : σ) (word : Text) (status : Int) : Except Fault (Outcome σ) :=
  (searchWord c.ctrlWord word 0 c.cntlWordNums).map fun found =>
    c.answer s (found.map fun handleIndex => (handleIndex, status))

/-- The body of the loop of `main`, for a read of some bytes. -/
def receive (s : σ) (r : Read) : Except Fault (Outcome σ) :=
  match cj.parse r.text with
  | none => .error .nullDereference
  | some root =>
      match cj.getObjectItem root (ascii "t") with
      | none => .error .nullDereference
      | some t =>
          match t.valuestring with
          | none => .error .nullDereference
          | some valuestring =>
              -- `strcpy(cntl_word, ...)`
              if BUFFER_SIZE ≤ valuestring.length then .error .outOfBounds
              else
                match cj.getObjectItem root (ascii "p") with
                | none => .error .nullDereference
                | some p => ctlWordHandle c s valuestring (c.toStatus p.valueint)

/-- The client as a machine whose inputs are the reads. -/
def client (s : σ) : Machine σ Read Fault where
  init := s
  step s r := (receive cj c s r).map Outcome.state

/-! ## What a read asks for -/

/-- The members that a client uses, if it can. -/
def fields (text : Text) : Option (Text × JsonItem) :=
  match cj.parse text with
  | none => none
  | some root =>
      match cj.getObjectItem root (ascii "t"), cj.getObjectItem root (ascii "p") with
      | some (.string w), some p => if w.length < BUFFER_SIZE then some (w, p) else none
      | _, _ => none

/-- The entry of a command word. -/
def Client.index (w : Text) : Option Nat :=
  c.words.findIdx? fun v => w == v

/-- The command that the client takes the text for. -/
def served (text : Text) : Option (Nat × Int) :=
  (fields cj text).bind fun f =>
    (c.index f.1).map fun handleIndex => (handleIndex, c.toStatus f.2.valueint)

/-- The command that the text is: its `p` has to be a number. -/
def wanted (text : Text) : Option (Nat × Int) :=
  (fields cj text).bind fun f =>
    if f.2.isNumber then
      (c.index f.1).map fun handleIndex => (handleIndex, c.toStatus f.2.valueint)
    else none

/-- The command in the read is executed and acknowledged once, or the read changes nothing. -/
def ReadRight (s : σ) (r : Read) : Prop :=
  receive cj c s r = .ok (c.answer s (wanted cj c r.own))

/-- The client can use the members of the text, finds its command word if the search goes past the
table without it, and takes it for the command that the read is. -/
def Acceptable (r : Read) : Prop :=
  (fields cj r.text).isSome ∧ (c.words.length < c.cntlWordNums → (served cj c r.text).isSome) ∧
    served cj c r.text = wanted cj c r.own

variable {cj c} {s : σ} {r : Read} {w : Text} {p : JsonItem}

/-! ## The search -/

/-- From the first entry not yet searched, the loop finds the word or goes on behind the table. -/
theorem searchWord_append (buffer : Text) (rest : List (Option Text)) (words : List Text)
    (front : List (Option Text)) (n : Nat) :
    searchWord (front ++ (words.map some ++ rest)) buffer front.length (words.length + n) =
      match words.findIdx? fun v => buffer == v with
      | some k => .ok (some (front.length + k))
      | none =>
          searchWord (front ++ (words.map some ++ rest)) buffer (front.length + words.length)
            n := by
  induction words generalizing front with
  | nil => simp
  | cons v words ih =>
      have hentry : (front ++ (List.map some (v :: words) ++ rest))[front.length]? =
          some (some v) := by
        simp
      rw [List.length_cons, Nat.add_right_comm, searchWord, hentry, List.findIdx?_cons]
      by_cases heq : buffer = v
      · simp [heq]
      · -- The entry joins those already searched.
        have hnext := ih (front ++ [some v])
        simp only [List.length_append, List.length_singleton, List.append_assoc,
          List.singleton_append] at hnext
        simp only [heq, if_false, beq_iff_eq, List.map_cons, List.cons_append]
        rw [hnext]
        cases words.findIdx? fun v => buffer == v with
        | none => simp [Nat.add_assoc, Nat.add_comm 1]
        | some k => simp [Nat.add_assoc, Nat.add_comm 1]

theorem searchWord_ctrlWord (c : Client σ) (w : Text) (n : Nat) :
    searchWord c.ctrlWord w 0 (c.words.length + n) =
      match c.index w with
      | some k => .ok (some k)
      | none => searchWord c.ctrlWord w c.words.length n := by
  have hsearch := searchWord_append w (List.replicate c.nulls none) c.words [] n
  simpa only [Client.ctrlWord, Client.index, List.nil_append, List.length_nil, Nat.zero_add]
    using hsearch

/-- No entry behind the words can be used. -/
theorem searchWord_past (c : Client σ) (w : Text) (n : Nat) :
    ∃ e, searchWord c.ctrlWord w c.words.length (n + 1) = .error e := by
  have hentry : c.ctrlWord[c.words.length]? = (List.replicate c.nulls none)[0]? := by
    rw [Client.ctrlWord, List.getElem?_append_right (by simp), List.length_map, Nat.sub_self]
  rw [searchWord, hentry]
  cases c.nulls with
  | zero => exact ⟨.outOfBounds, rfl⟩
  | succ nulls => exact ⟨.nullDereference, rfl⟩

theorem ctlWordHandle_found {k : Nat} (hfits : c.words.length ≤ c.cntlWordNums)
    (h : c.index w = some k) (status : Int) :
    ctlWordHandle c s w status = .ok (c.answer s (some (k, status))) := by
  rcases Nat.exists_eq_add_of_le hfits with ⟨n, hn⟩
  rw [ctlWordHandle, hn, searchWord_ctrlWord, h]
  rfl

theorem ctlWordHandle_absent (heq : c.words.length = c.cntlWordNums) (h : c.index w = none)
    (status : Int) : ctlWordHandle c s w status = .ok (c.answer s none) := by
  have hsearch := searchWord_ctrlWord c w 0
  rw [Nat.add_zero, h] at hsearch
  rw [ctlWordHandle, ← heq, hsearch]
  rfl

theorem ctlWordHandle_past (hlt : c.words.length < c.cntlWordNums) (h : c.index w = none)
    (status : Int) : ∃ e, ctlWordHandle c s w status = .error e := by
  rcases Nat.exists_eq_add_of_lt hlt with ⟨n, hn⟩
  rcases searchWord_past c w n with ⟨e, he⟩
  refine ⟨e, ?_⟩
  rw [ctlWordHandle, hn, Nat.add_assoc, searchWord_ctrlWord, h]
  simp only [he]
  rfl

/-! ## One read -/

theorem receive_fields (h : fields cj r.text = some (w, p)) :
    receive cj c s r = ctlWordHandle c s w (c.toStatus p.valueint) := by
  unfold fields at h
  unfold receive
  cases hroot : cj.parse r.text with
  | none => simp [hroot] at h
  | some root =>
      simp only [hroot] at h ⊢
      split at h
      · rename_i v q ht hp
        split at h
        · rename_i hfits
          cases h
          simp [ht, hp, JsonItem.valuestring, Nat.not_le.2 hfits]
        · cases h
      · cases h

theorem receive_no_fields (h : fields cj r.text = none) :
    ∃ e, receive cj c s r = .error e := by
  unfold fields at h
  unfold receive
  cases hroot : cj.parse r.text with
  | none => exact ⟨_, rfl⟩
  | some root =>
      simp only [hroot] at h ⊢
      cases ht : cj.getObjectItem root (ascii "t") with
      | none => exact ⟨_, rfl⟩
      | some t =>
          cases t with
          | number n => exact ⟨_, rfl⟩
          | other n => exact ⟨_, rfl⟩
          | string v =>
              by_cases hfits : v.length < BUFFER_SIZE
              · cases hp : cj.getObjectItem root (ascii "p") with
                | none => exact ⟨.nullDereference, by simp [JsonItem.valuestring, hfits]⟩
                | some p => simp [ht, hp, hfits] at h
              · exact ⟨.outOfBounds, by simp [JsonItem.valuestring, Nat.not_lt.1 hfits]⟩

/-- What is executed tells the command. -/
theorem answer_inj {found found' : Option (Nat × Int)} :
    c.answer s found = c.answer s found' ↔ found = found' := by
  refine ⟨fun h => ?_, fun h => by rw [h]⟩
  have hexecuted : found.toList = found'.toList := by
    have := congrArg Outcome.executed h
    cases found <;> cases found' <;> exact this
  rw [← Option.head?_toList (o := found), hexecuted, Option.head?_toList]

theorem readRight_iff (hfits : c.words.length ≤ c.cntlWordNums) :
    ReadRight cj c s r ↔ Acceptable cj c r := by
  unfold ReadRight Acceptable
  cases hfields : fields cj r.text with
  | none =>
      rcases receive_no_fields (c := c) (s := s) hfields with ⟨e, he⟩
      simp [he]
  | some f =>
      rcases f with ⟨w, p⟩
      rw [receive_fields hfields]
      have hserved : served cj c r.text =
          (c.index w).map fun handleIndex => (handleIndex, c.toStatus p.valueint) := by
        rw [served, hfields]
        rfl
      cases hindex : c.index w with
      | some k =>
          rw [ctlWordHandle_found hfits hindex, hserved, hindex]
          simp [answer_inj]
      | none =>
          rw [hserved, hindex]
          rcases Nat.lt_or_eq_of_le hfits with hlt | heq
          · rcases ctlWordHandle_past (s := s) hlt hindex (c.toStatus p.valueint) with ⟨e, he⟩
            simp [he, hlt]
          · rw [ctlWordHandle_absent heq hindex]
            simp [answer_inj, heq]

/-! ## Reads that end in the buffer -/

/-- A shorter read, or one with a zero, is a string by itself. -/
theorem text_eq_own (h : r.data.length < JSON_BUF ∨ (0 : UInt8) ∈ r.data) : r.text = r.own := by
  rw [Read.text, Read.own, List.append_assoc]
  rcases h with hshort | hzero
  · rcases Nat.exists_eq_add_of_lt hshort with ⟨n, hn⟩
    have hrest : JSON_BUF - r.data.length = n + 1 := by omega
    rw [hrest, cleared, List.replicate_succ, List.cons_append]
    exact stringIn_append_zero r.data _
  · exact stringIn_append_of_mem hzero _

/-- Of such a read, `p` has to be a number if `t` names a command. -/
theorem acceptable_iff_own (h : r.data.length < JSON_BUF ∨ (0 : UInt8) ∈ r.data) :
    Acceptable cj c r ↔
      ∃ w p, fields cj r.own = some (w, p) ∧
        (c.words.length < c.cntlWordNums → (c.index w).isSome) ∧
        ((c.index w).isSome → p.isNumber) := by
  rw [Acceptable, text_eq_own h, served, wanted]
  cases hfields : fields cj r.own with
  | none => simp
  | some f =>
      rcases f with ⟨w, p⟩
      cases hindex : c.index w with
      | none => simp [hindex]
      | some k => cases hp : p.isNumber <;> simp [hindex, hp]

/-! ## Every sequence of reads -/

theorem everyStep_readRight_iff (hfits : c.words.length ≤ c.cntlWordNums) (s₀ s : σ)
    (reads : List Read) :
    (client cj c s₀).EveryStep (ReadRight cj c) s reads ↔ ∀ r ∈ reads, Acceptable cj c r := by
  have hok : ∀ s r, Acceptable cj c r → ∃ t, (client cj c s₀).step s r = .ok t := by
    intro s r hr
    have hright : receive cj c s r = _ := (readRight_iff hfits).2 hr
    exact ⟨_, congrArg (Except.map Outcome.state) hright⟩
  rw [← (client cj c s₀).everyStep_input_iff hok]
  exact (client cj c s₀).everyStep_congr (fun _ _ _ _ _ => trivial)
    (fun _ _ _ => readRight_iff hfits) trivial reads

end Functions

/-- The second client does to the frame what `ctl_word_handle` does. -/
theorem ctlWordHandle_greeFifoClient (T : Infrared.Target) (redF0 : Infrared.Frame) {w : Text}
    (hlength : w.length < BUFFER_SIZE) (hw : (0 : UInt8) ∉ w) (status : Int) :
    (ctlWordHandle (greeFifoClient T) redF0 w status).map Outcome.state =
      .ok (Infrared.ctlWordHandle T redF0 w (UInt8.ofInt status)).2 := by
  have hbuffer : stringIn (w.take Infrared.BUFFER_SIZE_PIPE) = w := by
    rw [List.take_of_length_le (Nat.le_of_lt hlength), stringIn_of_not_mem hw]
  have hindex : (greeFifoClient T).index w =
      (Infrared.ctrlWord.take Infrared.CNTL_WORD_NUMS).findIdx? fun v => w == v := rfl
  have hcount : (greeFifoClient T).words.length = (greeFifoClient T).cntlWordNums := rfl
  rw [Infrared.ctlWordHandle, hbuffer, ← hindex]
  cases h : (greeFifoClient T).index w with
  | none =>
      rw [ctlWordHandle_absent hcount h]
      rfl
  | some handleIndex =>
      rw [ctlWordHandle_found (Nat.le_of_eq hcount) h]
      rfl

/-- Both clients treat all reads of a sequence right exactly if they can accept each of them. -/
theorem clients_right_iff (cj : CJson) (T : Infrared.Target) (redF0 : Infrared.Frame)
    (reads : List Read) :
    ((client cj pipeClnt ()).EveryStep (ReadRight cj pipeClnt) () reads ↔
        ∀ r ∈ reads, Acceptable cj pipeClnt r) ∧
      ((client cj (greeFifoClient T) redF0).EveryStep (ReadRight cj (greeFifoClient T)) redF0
          reads ↔
        ∀ r ∈ reads, Acceptable cj (greeFifoClient T) r) :=
  ⟨everyStep_readRight_iff (by decide) () () reads,
    everyStep_readRight_iff (by decide : (Infrared.ctrlWord).length ≤ 7) redF0 redF0 reads⟩

/-! ## What the server writes -/

/-- The requests of `pipe_ser1.c`. -/
def onlineWords : List Text :=
  ["打开空调", "关闭空调", "调高温度", "调低温度", "调高风速", "降低风速", "上下扫风", "关闭上下扫风",
    "左右扫风", "关闭左右扫风", "打开睡眠", "关闭睡眠", "查一下近两日的电量", "查一下本月的电量",
    "查一下近两个小时的电量", "推荐一款空调", "打开灯光", "关闭灯光", "关闭健康", "打开健康",
    "打开换气", "关闭换气", "打开节能", "关闭节能", "打开干燥", "关闭干燥", "切换到自动模式",
    "切换到制冷", "切换到除湿", "切换到制热", "切换到送风", "空调切换到自动风速",
    "空调切换到低风速", "空调切换到中低风速", "空调切换到中风速", "空调切换到中高风速",
    "空调切换到高风速", "空调切换到静音", "温度设为16度"].map fun word => word.toUTF8.data.toList

/-- `cJSON_PrintUnformatted` of an object with the member `query`. -/
def query (word : Text) : Text :=
  ascii "\x7b\"query\":\"" ++ word ++ ascii "\"\x7d"

/-- The `sizeof(jsonBuffer)` bytes that are written. -/
def written (word : Text) : Text :=
  query word ++ cleared (1024 - (query word).length)

/-- The bytes of the read number `i`. -/
def cut (word : Text) (i : Nat) : Text :=
  ((written word).drop (JSON_BUF * i)).take JSON_BUF

theorem query_short :
    ∀ word ∈ onlineWords, (query word).length < JSON_BUF ∧ (0 : UInt8) ∉ query word := by
  decide +kernel

/-- A read that only pads a string with zeros. -/
theorem text_of_padded {r : Read} {w : Text} {n : Nat} (hw : (0 : UInt8) ∉ w)
    (hlength : w.length < JSON_BUF) (h : r.data = w ++ cleared n) : r.text = w := by
  -- The buffer holds at least one zero more than the string.
  have hzeros : ∃ k, n + (JSON_BUF - r.data.length) = k + 1 := by
    refine Nat.exists_eq_succ_of_ne_zero ?_
    rw [h, List.length_append, length_cleared]
    omega
  rcases hzeros with ⟨k, hk⟩
  have hholds : Holds (r.data ++ cleared (JSON_BUF - r.data.length) ++ r.behind) w := by
    refine ⟨cleared k ++ r.behind, ?_, hw⟩
    calc r.data ++ cleared (JSON_BUF - r.data.length) ++ r.behind
        = w ++ (cleared n ++ cleared (JSON_BUF - r.data.length)) ++ r.behind := by
          rw [h, List.append_assoc w]
      _ = w ++ cleared (k + 1) ++ r.behind := by
          rw [cleared, cleared, List.replicate_append_replicate, hk, cleared]
      _ = w ++ 0 :: (cleared k ++ r.behind) := by
          rw [cleared, List.replicate_succ, List.append_assoc, List.cons_append, cleared]
  exact hholds.stringIn_eq

theorem cut_eq {word : Text} (hlength : (query word).length < JSON_BUF) (i : Nat) :
    ∃ n, cut word i = (if i = 0 then query word else []) ++ cleared n := by
  cases i with
  | zero =>
      refine ⟨min (JSON_BUF - (query word).length) (1024 - (query word).length), ?_⟩
      rw [cut, written, if_pos rfl, Nat.mul_zero, List.drop_zero, List.take_append,
        List.take_of_length_le (Nat.le_of_lt hlength), cleared, List.take_replicate, cleared]
  | succ i =>
      have hbehind : (query word).length ≤ JSON_BUF * (i + 1) :=
        Nat.le_trans (Nat.le_of_lt hlength) (Nat.le_mul_of_pos_right _ (Nat.succ_pos i))
      refine ⟨min JSON_BUF (1024 - (query word).length -
        (JSON_BUF * (i + 1) - (query word).length)), ?_⟩
      rw [cut, written, if_neg (Nat.succ_ne_zero i), List.drop_append,
        List.drop_eq_nil_of_le hbehind, cleared, List.drop_replicate, List.nil_append,
        List.take_replicate, List.nil_append, cleared]

/-- The first read holds the whole request, the others nothing but zeros. -/
theorem text_of_cut {word : Text} (hword : word ∈ onlineWords) {i : Nat} {r : Read}
    (hr : r.data = cut word i) : r.text = if i = 0 then query word else [] := by
  rcases query_short word hword with ⟨hlength, hzero⟩
  rcases cut_eq hlength i with ⟨n, hn⟩
  refine text_of_padded ?_ ?_ (hr.trans hn)
  · split
    · exact hzero
    · exact List.not_mem_nil
  · split
    · exact hlength
    · exact Nat.zero_lt_succ _

/-- No client survives any part of a request that the server writes: `query` is not `t`, and the
rest of the record is no JSON. -/
theorem cut_fails {σ : Type} {cj : CJson} (hempty : cj.parse [] = none)
    (hquery : ∀ word root, cj.parse (query word) = some root →
      cj.getObjectItem root (ascii "t") = none)
    (c : Client σ) (s : σ) {word : Text} (hword : word ∈ onlineWords) {i : Nat} {r : Read}
    (hr : r.data = cut word i) : receive cj c s r = .error .nullDereference := by
  have htext := text_of_cut hword hr
  unfold receive
  rw [htext]
  by_cases hi : i = 0
  · rw [if_pos hi]
    cases hroot : cj.parse (query word) with
    | none => rfl
    | some root => simp [hquery word root hroot]
  · simp [hi, hempty]

/-- The first request, and the parser on it. -/
def firstQuery : Text :=
  query (onlineWords.head (by decide))

def firstQueryJson : CJson where
  Doc := Unit
  parse text := if text = firstQuery then some () else none
  getObjectItem _ string :=
    if string = ascii "query" then some (.string (onlineWords.head (by decide))) else none

def firstCut : Read where
  data := cut (onlineWords.head (by decide)) 0
  behind := []
  pos := by decide +kernel
  fits := List.length_take_le _ _

theorem server_request_dereferenced :
    ¬ ∀ (cj : CJson) (T : Infrared.Target) (redF0 : Infrared.Frame) (reads : List Read),
      (client cj pipeClnt ()).EveryStep (ReadRight cj pipeClnt) () reads ∧
        (client cj (greeFifoClient T) redF0).EveryStep (ReadRight cj (greeFifoClient T)) redF0
          reads := by
  intro h
  have hright := (h firstQueryJson ⟨true⟩ Infrared.zeroFrame [firstCut]).1.1
  have hkey : ascii "t" ≠ ascii "query" := by decide
  have hmember : ∀ root, firstQueryJson.getObjectItem root (ascii "t") = none := by
    intro root
    simp [firstQueryJson, hkey]
  have hempty : firstQueryJson.parse [] = none := by decide +kernel
  have hfault := cut_fails hempty (fun _ root _ => hmember root) pipeClnt () (List.head_mem _)
    (r := firstCut) rfl
  rw [ReadRight, hfault] at hright
  cases hright

end Pipe
end LinuxLearn
