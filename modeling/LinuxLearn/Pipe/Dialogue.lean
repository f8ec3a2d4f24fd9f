import LinuxLearn.Json.Buffered
import LinuxLearn.Json.RoundTrip
import LinuxLearn.Pipe.FifoClient

/-!
# Dialogue — the clients and the server with their JSON library

Both clients and `pipe_ser1.c` are linked with `cJSON.c`; here the library is no parameter any more.
`dialogue` is about requests that the library has printed: in any sequence of them each is executed
once and in order, and the library reads the command word and the number in each reply.
`no_dialogue` is about the requests of `pipe_ser1.c`: none of them gets through.
-/

namespace LinuxLearn
namespace Pipe

open Lib
open Json (Doubles Item IntRange)

variable {δ σ : Type}

/-! ## The library -/

/-- What the clients look at in an item. -/
def ofItem : Item δ → JsonItem
  | .string valuestring => .string valuestring
  | .number valueint _ => .number valueint
  | .true => .other 1
  | .null => .other 0
  | .false => .other 0
  | .array _ => .other 0
  | .object _ => .other 0

/-- `cJSON.c`.  A text on which the parser leaves its memory is not told from a malformed one. -/
def cJson (D : Doubles δ) : CJson where
  Doc := Item δ
  parse text := (Json.parse D text).toOption.map Prod.fst
  getObjectItem root string := (Json.getObjectItem root string).map ofItem

def createNumber (D : Doubles δ) (num : δ) : Item δ :=
  .number (D.toInt num) num

/-- An object with the members `t`, a command word, and `key`, a number. -/
def message (D : Doubles δ) (ofInt : Int → δ) (w key : Text) (n : Int) : Item δ :=
  .object [(ascii "t", .string w), (key, createNumber D (ofInt n))]

/-! ## A session -/

/-- `client_send_ok`: the `sizeof(jsonBuf)` bytes that are written. -/
def clientSendOk (D : Doubles δ) (ofInt : Int → δ) (ack : Ack) : Except Fault Text :=
  match ack.t with
  | none => .error .nullDereference
  | some buf =>
      match Json.printUnformatted D (message D ofInt buf (ascii "s") ack.s) with
      | .error _ => .error .outOfBounds
      | .ok text =>
          if text.length < JSON_BUF then .ok (text ++ cleared (JSON_BUF - text.length))
          else .error .outOfBounds

structure Session (σ : Type) where
  state : σ
  executed : List (Nat × Int)
  /-- what was written to the client's FIFO -/
  replies : List Text

/-- One turn of the loop of `main`. -/
def turn (D : Doubles δ) (ofInt : Int → δ) (c : Client σ) (t : Session σ) (r : Read) :
    Except Fault (Session σ) := do
  let outcome ← receive (cJson D) c t.state r
  let replies ← outcome.acks.mapM (clientSendOk D ofInt)
  .ok ⟨outcome.state, t.executed ++ outcome.executed, t.replies ++ replies⟩

def session (D : Doubles δ) (ofInt : Int → δ) (c : Client σ) (s : σ) (reads : List Read) :
    Except Fault (Session σ) :=
  reads.foldlM (turn D ofInt c) ⟨s, [], []⟩

/-! ## Requests -/

/-- A command of a client, and whether the request for it is printed with `cJSON_Print`. -/
structure Request (c : Client σ) where
  handleIndex : Fin c.words.length
  status : Int
  fmt : Bool
  range : IntRange status

namespace Request

variable {c : Client σ}

def word (q : Request c) : Text :=
  c.words[q.handleIndex]

def item (D : Doubles δ) (ofInt : Int → δ) (q : Request c) : Item δ :=
  message D ofInt q.word (ascii "p") q.status

/-- The command, with the number as the client converts it. -/
def command (q : Request c) : Nat × Int :=
  (q.handleIndex, c.toStatus q.status)

/-- The read holds the printed request, with zeros behind it if more was written. -/
def Carried (D : Doubles δ) (ofInt : Int → δ) (q : Request c) (r : Read) : Prop :=
  ∃ text n, Json.printValue D q.fmt 0 (q.item D ofInt) = .ok text ∧ r.data = text ++ cleared n

/-- The library reads the word and the number of the command in the reply. -/
def Acknowledged (D : Doubles δ) (ofInt : Int → δ) (q : Request c) (reply : Text) : Prop :=
  reply.length = JSON_BUF ∧
    Json.parse D (stringIn reply) =
      .ok (message D ofInt q.word (ascii "s") (c.ackStatus (c.toStatus q.status)), [])

end Request

/-- Each request is executed once and in order, and so is it acknowledged. -/
def Served (D : Doubles δ) (ofInt : Int → δ) (c : Client σ) (s : σ) (requests : List (Request c))
    (reads : List Read) : Prop :=
  ∃ replies,
    session D ofInt c s reads =
        .ok ⟨requests.foldl (fun s q => c.handle q.command.1 q.command.2 s) s,
          requests.map Request.command, replies⟩ ∧
      List.Forall₂ (Request.Acknowledged D ofInt) requests replies

/-- The words fit into the buffers and need no escapes, each is found at its own entry, and the
replies are of an `int`. -/
structure Client.Tidy (c : Client σ) : Prop where
  fits : c.words.length ≤ c.cntlWordNums
  nodup : c.words.Nodup
  plain : c.words.all (fun w => w.all Json.isPlain && decide (w.length ≤ 12)) = true
  reply : ∀ n, IntRange n → IntRange (c.ackStatus (c.toStatus n))

theorem tidy_pipeClnt : pipeClnt.Tidy where
  fits := by decide
  nodup := by decide +kernel
  plain := by decide +kernel
  reply _ _ := show IntRange 1 by decide

theorem tidy_greeFifoClient (T : Infrared.Target) : (greeFifoClient T).Tidy where
  fits := show Infrared.ctrlWord.length ≤ 7 by decide
  nodup := show Infrared.ctrlWord.Nodup by decide +kernel
  plain := show Infrared.ctrlWord.all (fun w => w.all Json.isPlain && decide (w.length ≤ 12)) = true
    by decide +kernel
  reply n _ := by
    have hpos : 0 ≤ n % 256 := Int.emod_nonneg _ (by decide)
    have hlt : n % 256 < 256 := Int.emod_lt_of_pos _ (by decide)
    show IntRange (n % 256)
    exact ⟨by omega, by omega⟩

/-! ## Messages -/

section Messages

variable {D : Doubles δ} {ofInt : Int → δ} {w key : Text} {n : Int}

theorem whole_message (hD : D.Exact ofInt) (hw : (0 : UInt8) ∉ w) (hkey : (0 : UInt8) ∉ key)
    (hn : IntRange n) : (message D ofInt w key n).Whole ofInt := by
  have ht : (0 : UInt8) ∉ ascii "t" := by decide
  rw [message, createNumber, hD.toInt_ofInt n hn]
  exact ⟨ht, hw, hkey, ⟨hn, rfl⟩, trivial⟩

/-- What the printer asks for is less than the buffers of the clients have. -/
theorem length_message (hD : D.Exact ofInt) (hw : (w.flatMap Json.escape).length ≤ 12)
    (hkey : (key.flatMap Json.escape).length = 1) (hn : IntRange n) (fmt : Bool) :
    (Json.layout D fmt 0 (message D ofInt w key n)).length < JSON_BUF := by
  have ht : ((ascii "t").flatMap Json.escape).length = 1 := by decide +kernel
  have hnumber := Json.length_decimal_lt hn
  have henough := Json.enough_objectBlock fmt 0
    (Json.memberLayouts D fmt 1 [(ascii "t", .string w), (key, .number n (ofInt n))])
  rw [message, createNumber, hD.toInt_ofInt n hn]
  refine Nat.lt_trans henough ?_
  simp only [Json.objectBlock, Json.memberLayouts, Json.layout, Json.printNumber_text hD hn,
    Json.stringLayout, List.map_cons, List.map_nil, List.sum_cons, List.sum_nil,
    List.length_cons, List.length_append, List.length_nil, reduceCtorEq, if_false, ht, hkey]
  cases fmt <;> simp only [if_true, if_false, Bool.false_eq_true, JSON_BUF] <;> omega

/-- A printed message is a string that fits into the buffers, and the library reads it back. -/
theorem message_printed (hD : D.Exact ofInt) (hfits : D.Fits) (hw : (0 : UInt8) ∉ w)
    (hlength : (w.flatMap Json.escape).length ≤ 12) (hkey : (0 : UInt8) ∉ key)
    (hone : (key.flatMap Json.escape).length = 1) (hn : IntRange n) (fmt : Bool) :
    ∃ text, Json.printValue D fmt 0 (message D ofInt w key n) = .ok text ∧
      text.length < JSON_BUF ∧ (0 : UInt8) ∉ text ∧
      Json.parse D text = .ok (message D ofInt w key n, []) := by
  have hwhole := whole_message hD hw hkey hn
  have hread := Json.parse_layout hD hwhole fmt (w := []) (fun _ hc => by cases hc)
    (show Json.EndsNumber [] from fun _ hc => by cases hc)
  rw [List.nil_append, List.append_nil] at hread
  refine ⟨_, Json.printValue_eq hfits hwhole.printable fmt 0,
    length_message hD hlength hone hn fmt, Json.zero_not_mem_layout hfits hwhole.printable 0, ?_⟩
  rw [Json.parse, Json.parseWithOpts, hread]
  rfl

end Messages

/-! ## One request -/

section Requests

variable {D : Doubles δ} {ofInt : Int → δ} {c : Client σ} {q : Request c}

theorem Client.Tidy.word (hc : c.Tidy) (q : Request c) :
    (0 : UInt8) ∉ q.word ∧ q.word.length ≤ 12 ∧ (q.word.flatMap Json.escape).length ≤ 12 := by
  have hword := List.all_eq_true.1 hc.plain q.word (List.getElem_mem _)
  rw [Bool.and_eq_true, decide_eq_true_iff] at hword
  refine ⟨fun hzero => ?_, hword.2, ?_⟩
  · have hplain := List.all_eq_true.1 hword.1 0 hzero
    cases hplain
  · rw [Json.flatMap_escape_of_plain hword.1]
    exact hword.2

theorem Client.Tidy.index_word (hc : c.Tidy) (q : Request c) :
    c.index q.word = some q.command.1 := by
  rw [Client.index, List.findIdx?_eq_some_iff_getElem]
  refine ⟨q.handleIndex.isLt, beq_self_eq_true q.word, fun j hj => ?_⟩
  have hne : q.command.1 ≠ j := Nat.ne_of_gt hj
  simp only [beq_iff_eq, Request.word]
  exact fun heq => hne ((List.Nodup.getElem_inj_iff hc.nodup).1 heq)

/-- The members of a printed request. -/
theorem fields_request (hD : D.Exact ofInt) (hfits : D.Fits) (hc : c.Tidy) {r : Read}
    (h : q.Carried D ofInt r) : fields (cJson D) r.text = some (q.word, .number q.status) := by
  rcases hc.word q with ⟨hzero, hlength, hescaped⟩
  rcases h with ⟨text, n, hprint, hdata⟩
  rcases message_printed hD hfits hzero hescaped (by decide : (0 : UInt8) ∉ ascii "p")
    (by decide +kernel) q.range q.fmt with ⟨text', hprint', hshort, hnozero, hparse⟩
  cases hprint.symm.trans hprint'
  have hroot : (cJson D).parse text = some (q.item D ofInt) := by
    simp only [cJson, hparse]
    rfl
  have ht : (cJson D).getObjectItem (q.item D ofInt) (ascii "t") = some (.string q.word) := rfl
  have hp : (cJson D).getObjectItem (q.item D ofInt) (ascii "p") = some (.number q.status) := by
    rw [← hD.toInt_ofInt q.status q.range]
    rfl
  have hword : q.word.length < BUFFER_SIZE := Nat.lt_of_le_of_lt hlength (by decide)
  rw [text_of_padded hnozero hshort hdata, fields, hroot]
  simp only [ht, hp, if_pos hword]

theorem receive_request (hD : D.Exact ofInt) (hfits : D.Fits) (hc : c.Tidy) {r : Read}
    (h : q.Carried D ofInt r) (s : σ) :
    receive (cJson D) c s r = .ok (c.answer s (some q.command)) := by
  rw [receive_fields (fields_request hD hfits hc h)]
  exact ctlWordHandle_found hc.fits (hc.index_word q) _

theorem clientSendOk_request (hD : D.Exact ofInt) (hfits : D.Fits) (hc : c.Tidy) (q : Request c) :
    ∃ reply, clientSendOk D ofInt ⟨c.ctrlWord[q.command.1]?.join, c.ackStatus q.command.2⟩ =
      .ok reply ∧ q.Acknowledged D ofInt reply := by
  have hentry : c.ctrlWord[q.command.1]?.join = some q.word := by
    have hlt : q.command.1 < c.words.length := q.handleIndex.isLt
    rw [Client.ctrlWord, List.getElem?_append_left (by simpa using hlt), List.getElem?_map,
      List.getElem?_eq_getElem hlt]
    rfl
  rcases hc.word q with ⟨hzero, hlength, hescaped⟩
  rcases message_printed hD hfits hzero hescaped (by decide : (0 : UInt8) ∉ ascii "s")
    (by decide +kernel) (hc.reply q.status q.range) false with
    ⟨text, hprint, hshort, hnozero, hparse⟩
  have hholds : Holds (text ++ cleared (JSON_BUF - text.length)) text := by
    rcases Nat.exists_eq_add_of_lt hshort with ⟨k, hk⟩
    have hrest : JSON_BUF - text.length = k + 1 := by omega
    exact ⟨cleared k, by rw [hrest, cleared, cleared, List.replicate_succ], hnozero⟩
  refine ⟨text ++ cleared (JSON_BUF - text.length), ?_, ?_, ?_⟩
  · have hprint' : Json.printUnformatted D
        (message D ofInt q.word (ascii "s") (c.ackStatus q.command.2)) = .ok text := hprint
    simp only [clientSendOk, hentry, hprint', if_pos hshort]
  · rw [List.length_append, length_cleared]
    exact Nat.add_sub_of_le (Nat.le_of_lt hshort)
  · rw [hholds.stringIn_eq]
    exact hparse

theorem turn_request (hD : D.Exact ofInt) (hfits : D.Fits) (hc : c.Tidy) {r : Read}
    (h : q.Carried D ofInt r) (t : Session σ) :
    ∃ reply, turn D ofInt c t r =
        .ok ⟨c.handle q.command.1 q.command.2 t.state, t.executed ++ [q.command],
          t.replies ++ [reply]⟩ ∧ q.Acknowledged D ofInt reply := by
  rcases clientSendOk_request hD hfits hc q with ⟨reply, hsend, hack⟩
  refine ⟨reply, ?_, hack⟩
  rw [turn, receive_request hD hfits hc h]
  simp only [Bind.bind, Except.bind, Client.answer, List.mapM_cons, List.mapM_nil, hsend]
  rfl

end Requests

/-! ## Every sequence of requests -/

theorem foldlM_turn {D : Doubles δ} {ofInt : Int → δ} (hD : D.Exact ofInt) (hfits : D.Fits)
    {c : Client σ} (hc : c.Tidy) {requests : List (Request c)} {reads : List Read}
    (h : List.Forall₂ (Request.Carried D ofInt) requests reads) (t : Session σ) :
    ∃ replies,
      reads.foldlM (turn D ofInt c) t =
          .ok ⟨requests.foldl (fun s q => c.handle q.command.1 q.command.2 s) t.state,
            t.executed ++ requests.map Request.command, t.replies ++ replies⟩ ∧
        List.Forall₂ (Request.Acknowledged D ofInt) requests replies := by
  induction h generalizing t with
  | nil => exact ⟨[], by simp [pure, Except.pure], .nil⟩
  | cons hq _ ih =>
      rcases turn_request hD hfits hc hq t with ⟨reply, hturn, hack⟩
      rcases ih ⟨_, _, _⟩ with ⟨replies, hrest, hacks⟩
      refine ⟨reply :: replies, ?_, .cons hack hacks⟩
      rw [List.foldlM_cons, hturn]
      simp only [Bind.bind, Except.bind, List.foldl_cons, List.map_cons]
      rw [hrest]
      simp only [List.append_assoc, List.singleton_append]

theorem session_served {D : Doubles δ} {ofInt : Int → δ} (hD : D.Exact ofInt) (hfits : D.Fits)
    {c : Client σ} (hc : c.Tidy) (s : σ) {requests : List (Request c)} {reads : List Read}
    (h : List.Forall₂ (Request.Carried D ofInt) requests reads) :
    Served D ofInt c s requests reads := by
  rcases foldlM_turn hD hfits hc h ⟨s, [], []⟩ with ⟨replies, hsession, hacks⟩
  refine ⟨replies, ?_, hacks⟩
  rw [session, hsession]
  simp only [List.nil_append]

/-- What the library prints for a command gets through to both clients, and back. -/
theorem dialogue {D : Doubles δ} {ofInt : Int → δ} (hD : D.Exact ofInt) (hfits : D.Fits)
    (T : Infrared.Target) (redF0 : Infrared.Frame) (reads : List Read) :
    (∀ requests : List (Request pipeClnt),
        List.Forall₂ (Request.Carried D ofInt) requests reads →
          Served D ofInt pipeClnt () requests reads) ∧
      ∀ requests : List (Request (greeFifoClient T)),
        List.Forall₂ (Request.Carried D ofInt) requests reads →
          Served D ofInt (greeFifoClient T) redF0 requests reads :=
  ⟨fun _ h => session_served hD hfits tidy_pipeClnt () h,
    fun _ h => session_served hD hfits (tidy_greeFifoClient T) redF0 h⟩

/-- The request for 26 degrees, as one read. -/
def tempRead : Read where
  data := ascii "\x7b\"t\":\"temp\",\"p\":26\x7d"
  behind := []
  pos := by decide +kernel
  fits := by decide +kernel

/-- The request to sleep, as `cJSON_Print` prints it. -/
def sleepText : Text :=
  ascii "\x7b\n\t\"t\":\t\"sleep\",\n\t\"p\":\t1\n\x7d"

/-- The request to sleep with zeros behind it. -/
def sleepRead : Read where
  data := sleepText ++ cleared 10
  behind := []
  pos := by decide +kernel
  fits := by decide +kernel

theorem dialogue_temp_sleep :
    Served Json.rationals Int.cast pipeClnt ()
        [⟨⟨7, by decide⟩, 26, false, by decide⟩, ⟨⟨10, by decide⟩, 1, true, by decide⟩]
        [tempRead, sleepRead] ∧
      Served Json.rationals Int.cast (greeFifoClient ⟨true⟩) Infrared.zeroFrame
        [⟨⟨3, by decide⟩, 26, false, by decide⟩, ⟨⟨6, by decide⟩, 1, true, by decide⟩]
        [tempRead, sleepRead] :=
  have hdialogue := dialogue Json.rationals_exact Json.rationals_fits ⟨true⟩ Infrared.zeroFrame
    [tempRead, sleepRead]
  ⟨hdialogue.1 _ (.cons ⟨tempRead.data, 0, by decide +kernel, rfl⟩
      (.cons ⟨sleepText, 10, by decide +kernel, rfl⟩ .nil)),
    hdialogue.2 _ (.cons ⟨tempRead.data, 0, by decide +kernel, rfl⟩
      (.cons ⟨sleepText, 10, by decide +kernel, rfl⟩ .nil))⟩

/-! ## The requests of `pipe_ser1.c` -/

/-- The `sizeof(jsonBuffer)` bytes that `main` writes. -/
def record (D : Doubles δ) (word : Text) : Except Json.Fault Text :=
  (Json.printUnformatted D (.object [(ascii "query", .string word)])).map fun text =>
    text ++ cleared (1024 - text.length)

section Online

variable {D : Doubles δ} {ofInt : Int → δ} {word : Text}

theorem plain_of_online (hword : word ∈ onlineWords) : word.all Json.isPlain = true := by
  have hall : onlineWords.all (fun word => word.all Json.isPlain) = true := by
    decide +kernel
  exact List.all_eq_true.1 hall word hword

theorem whole_query (ofInt : Int → δ) (hword : word ∈ onlineWords) :
    (Item.object [(ascii "query", .string word)]).Whole ofInt := by
  have hkey : (0 : UInt8) ∉ ascii "query" := by decide
  refine ⟨hkey, fun hzero => ?_, trivial⟩
  have hplain := List.all_eq_true.1 (plain_of_online hword) 0 hzero
  cases hplain

theorem layout_query (D : Doubles δ) (hword : word ∈ onlineWords) :
    Json.layout D false 0 (.object [(ascii "query", .string word)]) = query word := by
  have hkey : (ascii "query").flatMap Json.escape = ascii "query" := by decide +kernel
  have hfront : ascii "\x7b\"query\":\"" = [Json.openBrace, Json.quote] ++ ascii "query" ++
      [Json.quote, Json.colon, Json.quote] := by
    decide +kernel
  have hback : ascii "\"\x7d" = [Json.quote, Json.closeBrace] := by decide +kernel
  simp only [Json.layout, Json.memberLayouts, Json.objectBlock, Json.membersText, Json.memberText,
    Json.stringLayout, Json.flatMap_escape_of_plain (plain_of_online hword), hkey]
  rw [query, hfront, hback]
  simp [Json.ifFmt]

theorem parse_query (hD : D.Exact ofInt) (hword : word ∈ onlineWords) :
    (cJson D).parse (query word) = some (.object [(ascii "query", .string word)]) := by
  have hread := Json.parse_layout hD (whole_query ofInt hword) false (w := [])
    (fun _ hc => by cases hc) (show Json.EndsNumber [] from fun _ hc => by cases hc)
  rw [List.nil_append, List.append_nil, layout_query D hword] at hread
  simp only [cJson, Json.parse, Json.parseWithOpts, hread]
  rfl

/-- The object of a request has no member `t`, and the reads behind it hold no value. -/
theorem receive_cut (hD : D.Exact ofInt) (hword : word ∈ onlineWords) {i : Nat} {r : Read}
    (hr : r.data = cut word i) (c : Client σ) (s : σ) :
    receive (cJson D) c s r = .error .nullDereference := by
  unfold receive
  rw [text_of_cut hword hr]
  by_cases hi : i = 0
  · rw [if_pos hi, parse_query hD hword]
    rfl
  · rw [if_neg hi]
    rfl

end Online

/-- However a session has gone, a read of a request of `pipe_ser1.c` ends it. -/
theorem no_dialogue {D : Doubles δ} {ofInt : Int → δ} (hD : D.Exact ofInt) (hfits : D.Fits)
    {word : Text} (hword : word ∈ onlineWords) :
    record D word = .ok (written word) ∧
      ∀ (c : Client σ) (s : σ) (before after : List Read) (t : Session σ) (i : Nat) (r : Read),
        session D ofInt c s before = .ok t → r.data = cut word i →
          session D ofInt c s (before ++ r :: after) = .error .nullDereference := by
  constructor
  · rw [record, Json.printUnformatted, Json.printValue_eq hfits (whole_query ofInt hword).printable,
      layout_query D hword]
    rfl
  · intro c s before after t i r hbefore hr
    rw [session] at hbefore
    rw [session, List.foldlM_append, hbefore]
    simp only [Bind.bind, Except.bind, List.foldlM_cons, turn, receive_cut hD hword hr c t.state]

theorem no_dialogue_first :
    session Json.rationals Int.cast pipeClnt () ([] ++ firstCut :: []) = .error .nullDereference :=
  (no_dialogue Json.rationals_exact Json.rationals_fits (List.head_mem _)).2 pipeClnt () [] []
    ⟨(), [], []⟩ 0 firstCut rfl rfl

end Pipe
end LinuxLearn
