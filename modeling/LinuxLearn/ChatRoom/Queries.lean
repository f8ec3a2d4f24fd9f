import LinuxLearn.Lib.Calendar
import LinuxLearn.Lib.Statements
import LinuxLearn.ChatRoom.Database
import LinuxLearn.ChatRoom.Server

/-!
# Queries — the SQL texts of the server

Each handler puts its statements together with `sprintf`, and puts the strings of the request
between quotes as they are.  `query_structure_iff` says when the statement that results is the one
that the handler means to send.
-/

namespace LinuxLearn
namespace ChatRoom

open Lib Lib.Sql

/-! ## The texts -/

/-- The query of `loginUser`. -/
def loginText (user : User) : Text :=
  sprintf (ascii "select * from User where userName='%s' and password='%s';")
    [.str user.userName, .str user.password]

/-- The query of `registerUser`. -/
def userText (user : User) : Text :=
  sprintf (ascii "select * from User where userName='%s';") [.str user.userName]

/-- The four bytes of an address in network order, which is the order in memory. -/
def inetNtoa (addr : Nat) : Text :=
  decimal ↑(addr % 256) ++ 46 :: (decimal ↑(addr / 256 % 256) ++
    46 :: (decimal ↑(addr / 65536 % 256) ++ 46 :: decimal ↑(addr / 16777216 % 256)))

/-- `YES` of `enum Flag`, which means that the user may not speak. -/
abbrev YES : Int := 0

/-- The insertion of `registerUser`, with the tabs of the continued line. -/
def registerText (user : User) (timeNow : Int) : Text :=
  sprintf (ascii (
      "insert into User(userName , password , userAddr , sockfd , speak , registerTime)" ++
      "\t\t\tvalues('%s','%s','%s',%d, %d , '%s');"))
    [.str user.userName, .str user.password, .str (inetNtoa user.userAddr.addr), .int user.sockfd,
      .int YES, .str (asctime (gmtime timeNow))]

/-- The name by which `viewRecords` searches. -/
def recordsName (msg : Message) : CString :=
  if msg.recvName = allUsers then [] else msg.recvName

/-- The query of `viewRecords`. -/
def recordsText (msg : Message) : Text :=
  if recordsName msg = [] then
    sprintf (ascii "select * from Message where recvName='%s' order by msgTime;")
      [.str (recordsName msg)]
  else
    sprintf (ascii ("select * from Message where sendName='%s' and recvName='%s'" ++
        " or sendName='%s' and recvName='%s' order by msgTime;"))
      [.str msg.sendName, .str (recordsName msg), .str (recordsName msg), .str msg.sendName]

/-! ## The statements that are meant -/

/-- `c = v` -/
def equationTokens (c : String) (v : Text) : List Token :=
  [kw c, .symbol 61, .literal v]

def selectTokens (table : String) : List Token :=
  [kw "select", .symbol 42, kw "from", kw table, kw "where"]

def orderTokens : List Token :=
  [kw "order", kw "by", kw "msgTime", .symbol semicolon]

def loginTokens (user : User) : List Token :=
  selectTokens "User" ++ equationTokens "userName" user.userName ++ kw "and" ::
    equationTokens "password" user.password ++ [.symbol semicolon]

def userTokens (user : User) : List Token :=
  selectTokens "User" ++ equationTokens "userName" user.userName ++ [.symbol semicolon]

def registerTokens (user : User) (timeNow : Int) : List Token :=
  ([kw "insert", kw "into", kw "User", .symbol 40, kw "userName", .symbol 44, kw "password",
    .symbol 44, kw "userAddr", .symbol 44, kw "sockfd", .symbol 44, kw "speak", .symbol 44,
    kw "registerTime", .symbol 41, kw "values", .symbol 40, .literal user.userName, .symbol 44,
    .literal user.password, .symbol 44, .literal (inetNtoa user.userAddr.addr),
    .symbol 44] : List Token) ++
  intTokens user.sockfd ++
  ([.symbol 44, kw "0", .symbol 44, .literal (asctime (gmtime timeNow)), .symbol 41,
    .symbol semicolon] : List Token)

def messageTokens (message : Message) : List Token :=
  ([kw "insert", kw "into", kw "Message", .symbol 40, kw "msgType", .symbol 44, kw "sendName",
    .symbol 44, kw "recvName", .symbol 44, kw "content", .symbol 44, kw "msgTime", .symbol 41,
    kw "values", .symbol 40] : List Token) ++
  intTokens message.msgType ++
  ([.symbol 44, .literal message.sendName, .symbol 44, .literal message.recvName, .symbol 44,
    .literal message.content, .symbol 44, .literal message.msgTime, .symbol 41,
    .symbol semicolon] : List Token)

def recordsTokens (msg : Message) : List Token :=
  if recordsName msg = [] then
    selectTokens "Message" ++ equationTokens "recvName" [] ++ orderTokens
  else
    selectTokens "Message" ++ equationTokens "sendName" msg.sendName ++ kw "and" ::
      equationTokens "recvName" (recordsName msg) ++ kw "or" ::
      equationTokens "sendName" (recordsName msg) ++ kw "and" ::
      equationTokens "recvName" msg.sendName ++ orderTokens

/-! ## The requests -/

/-- The requests that lead to SQL statements; a message is as its sender wrote it. -/
inductive Request
  | login (user : User)
  | register (user : User) (timeNow : Int)
  | groupChat (msg : Message)
  | personalChat (msg : Message)
  | viewRecords (msg : Message)
  deriving DecidableEq, Repr

namespace Request

/-- The statements that the handler of the request may send, each with its meaning. -/
def statements : Request → List (Text × List Token)
  | login user => [(loginText user, loginTokens user)]
  | register user timeNow =>
      if 20 < user.userName.length then []
      else
        [(userText user, userTokens user),
          (registerText user timeNow, registerTokens user timeNow)]
  | groupChat msg => [(messageText (groupMessage msg), messageTokens (groupMessage msg))]
  | personalChat msg =>
      if msg.sendName = msg.recvName then []
      else [(messageText (personalMessage msg), messageTokens (personalMessage msg))]
  | viewRecords msg => [(recordsText msg, recordsTokens msg)]

/-- The strings of the request that are put into its statements. -/
def userStrings : Request → List Text
  | login user => [user.userName, user.password]
  | register user _ => if 20 < user.userName.length then [] else [user.userName, user.password]
  | groupChat msg => [msg.sendName, msg.content, msg.msgTime]
  | personalChat msg =>
      if msg.sendName = msg.recvName then []
      else [msg.sendName, msg.recvName, msg.content, msg.msgTime]
  | viewRecords msg => if recordsName msg = [] then [] else [msg.sendName, recordsName msg]

end Request

/-! ## The texts as segments and values -/

section Splices

set_option maxRecDepth 4000

theorem loginText_eq (user : User) :
    loginText user = ascii "select * from User where userName=" ++
      splice [(user.userName, ascii " and password="), (user.password, ascii ";")] := by
  rfl

theorem userText_eq (user : User) :
    userText user = ascii "select * from User where userName=" ++
      splice [(user.userName, ascii ";")] := by
  rfl

/-- The beginning of the insertion of `registerUser`. -/
def registerHead : Text :=
  ascii ("insert into User(userName , password , userAddr , sockfd , speak , registerTime)" ++
    "\t\t\tvalues(")

theorem registerText_eq (user : User) (timeNow : Int) :
    registerText user timeNow = registerHead ++
      splice [(user.userName, [44]), (user.password, [44]),
        (inetNtoa user.userAddr.addr, [44] ++ (decimal user.sockfd ++ 44 :: ascii " 0 , ")),
        (asctime (gmtime timeNow), ascii ");")] := by
  have hflat : registerText user timeNow = registerHead ++ quote :: (user.userName ++
      quote :: 44 :: quote :: (user.password ++ quote :: 44 :: quote ::
      (inetNtoa user.userAddr.addr ++ quote :: 44 :: (decimal user.sockfd ++
        44 :: (ascii " 0 , " ++ splice [(asctime (gmtime timeNow), ascii ");")]))))) := by
    rfl
  simp [hflat, splice]

/-- The beginning of the insertion of `groupChat` and `personalChat`. -/
def messageHead : Text :=
  ascii ("insert into Message(msgType , sendName , recvName , content , msgTime)" ++
    "\t\t\t\tvalues(")

theorem messageText_eq (message : Message) :
    messageText message = (messageHead ++ (decimal message.msgType ++ [44])) ++
      splice [(message.sendName, [44]), (message.recvName, [44]), (message.content, ascii ", "),
        (message.msgTime, ascii ");")] := by
  have hflat : messageText message = messageHead ++ (decimal message.msgType ++ 44 ::
      splice [(message.sendName, [44]), (message.recvName, [44]), (message.content, ascii ", "),
        (message.msgTime, ascii ");")]) := by
    rfl
  simp [hflat]

theorem recordsText_eq (msg : Message) (h : recordsName msg ≠ []) :
    recordsText msg = ascii "select * from Message where sendName=" ++
      splice [(msg.sendName, ascii " and recvName="), (recordsName msg, ascii " or sendName="),
        (recordsName msg, ascii " and recvName="), (msg.sendName, ascii " order by msgTime;")] := by
  rw [recordsText, if_neg h]
  rfl

end Splices

/-! ## The segments -/

section Segments

set_option maxRecDepth 2000

theorem segment_comma : Segment [44] [.symbol 44] :=
  .of_scan (by decide) (by decide) (by decide)

theorem segment_space : Segment (ascii ", ") [.symbol 44] :=
  .of_scan (by decide) (by decide) (by decide)

theorem segment_semicolon : Segment (ascii ";") [.symbol semicolon] :=
  .of_scan (by decide) (by decide) (by decide)

theorem segment_close : Segment (ascii ");") [.symbol 41, .symbol semicolon] :=
  .of_scan (by decide) (by decide) (by decide)

theorem segment_user : Segment (ascii "select * from User where userName=")
    (selectTokens "User" ++ [kw "userName", .symbol 61]) :=
  .of_scan (by decide) (by decide) (by decide)

theorem segment_password : Segment (ascii " and password=")
    [kw "and", kw "password", .symbol 61] :=
  .of_scan (by decide) (by decide) (by decide)

theorem segment_records : Segment (ascii "select * from Message where sendName=")
    (selectTokens "Message" ++ [kw "sendName", .symbol 61]) :=
  .of_scan (by decide) (by decide) (by decide)

theorem segment_recvName : Segment (ascii " and recvName=")
    [kw "and", kw "recvName", .symbol 61] :=
  .of_scan (by decide) (by decide) (by decide)

theorem segment_sendName : Segment (ascii " or sendName=")
    [kw "or", kw "sendName", .symbol 61] :=
  .of_scan (by decide) (by decide) (by decide)

theorem segment_order : Segment (ascii " order by msgTime;") orderTokens :=
  .of_scan (by decide) (by decide) (by decide)

theorem segment_register : Segment registerHead
    [kw "insert", kw "into", kw "User", .symbol 40, kw "userName", .symbol 44, kw "password",
      .symbol 44, kw "userAddr", .symbol 44, kw "sockfd", .symbol 44, kw "speak", .symbol 44,
      kw "registerTime", .symbol 41, kw "values", .symbol 40] :=
  .of_scan (by decide) (by decide +kernel) (by decide +kernel)

theorem segment_sockfd (sockfd : Int) :
    Segment ([44] ++ (decimal sockfd ++ 44 :: ascii " 0 , "))
      ([Token.symbol 44] ++ (intTokens sockfd ++ [Token.symbol 44, kw "0", Token.symbol 44])) :=
  .int (by decide) (by decide) sockfd (by decide) (.of_scan (by decide) (by decide) (by decide))

theorem segment_message (msgType : Int) :
    Segment (messageHead ++ (decimal msgType ++ [44]))
      (([kw "insert", kw "into", kw "Message", .symbol 40, kw "msgType", .symbol 44, kw "sendName",
        .symbol 44, kw "recvName", .symbol 44, kw "content", .symbol 44, kw "msgTime", .symbol 41,
        kw "values", .symbol 40] : List Token) ++ (intTokens msgType ++ [Token.symbol 44])) :=
  .int (by decide) (by decide +kernel) msgType (by decide) segment_comma

end Segments

/-! ## The structure of each statement -/

theorem lex_loginText_iff (user : User) :
    lex (loginText user) = loginTokens user ↔ quote ∉ user.userName ∧ quote ∉ user.password := by
  have hsplice := lex_splice_iff segment_user
    [(user.userName, ascii " and password=", [kw "and", kw "password", .symbol 61]),
      (user.password, ascii ";", [.symbol semicolon])]
    (by simp [segment_password, segment_semicolon])
  simpa [loginText_eq, loginTokens, selectTokens, equationTokens, spliceTokens] using hsplice

theorem lex_userText_iff (user : User) :
    lex (userText user) = userTokens user ↔ quote ∉ user.userName := by
  have hsplice := lex_splice_iff segment_user
    [(user.userName, ascii ";", [.symbol semicolon])] (by simp [segment_semicolon])
  simpa [userText_eq, userTokens, selectTokens, equationTokens, spliceTokens] using hsplice

theorem quote_notMem_inetNtoa (addr : Nat) : quote ∉ inetNtoa addr := by
  have hdot : quote ≠ 46 := by decide
  simp [inetNtoa, quote_notMem_decimal, hdot]

theorem lex_registerText_iff (user : User) (timeNow : Int) :
    lex (registerText user timeNow) = registerTokens user timeNow ↔
      quote ∉ user.userName ∧ quote ∉ user.password := by
  have hsplice := lex_splice_iff segment_register
    [(user.userName, [44], [.symbol 44]), (user.password, [44], [.symbol 44]),
      (inetNtoa user.userAddr.addr, [44] ++ (decimal user.sockfd ++ 44 :: ascii " 0 , "),
        [.symbol 44] ++ (intTokens user.sockfd ++ [.symbol 44, kw "0", .symbol 44])),
      (asctime (gmtime timeNow), ascii ");", [.symbol 41, .symbol semicolon])]
    (by simpa using ⟨segment_comma, segment_sockfd user.sockfd, segment_close⟩)
  -- The address and the time are written by the server itself.
  have haddr := quote_notMem_inetNtoa user.userAddr.addr
  have htime := quote_notMem_asctime (gmtime timeNow)
  simpa [registerText_eq, registerTokens, spliceTokens, haddr, htime] using hsplice

theorem lex_messageText_iff (message : Message) :
    lex (messageText message) = messageTokens message ↔
      quote ∉ message.sendName ∧ quote ∉ message.recvName ∧ quote ∉ message.content ∧
        quote ∉ message.msgTime := by
  have hsplice := lex_splice_iff (segment_message message.msgType)
    [(message.sendName, [44], [.symbol 44]), (message.recvName, [44], [.symbol 44]),
      (message.content, ascii ", ", [.symbol 44]),
      (message.msgTime, ascii ");", [.symbol 41, .symbol semicolon])]
    (by simp [segment_comma, segment_space, segment_close])
  simpa [messageText_eq, messageTokens, spliceTokens] using hsplice

/-- The query for the group records is a fixed text. -/
theorem lex_recordsText_group {msg : Message} (h : recordsName msg = []) :
    lex (recordsText msg) = recordsTokens msg := by
  rw [recordsText, recordsTokens, if_pos h, if_pos h, h]
  decide +kernel

theorem lex_recordsText_iff {msg : Message} (h : recordsName msg ≠ []) :
    lex (recordsText msg) = recordsTokens msg ↔
      quote ∉ msg.sendName ∧ quote ∉ recordsName msg := by
  have hsplice := lex_splice_iff segment_records
    [(msg.sendName, ascii " and recvName=", [kw "and", kw "recvName", .symbol 61]),
      (recordsName msg, ascii " or sendName=", [kw "or", kw "sendName", .symbol 61]),
      (recordsName msg, ascii " and recvName=", [kw "and", kw "recvName", .symbol 61]),
      (msg.sendName, ascii " order by msgTime;", orderTokens)]
    (by simp [segment_recvName, segment_sendName, segment_order])
  have hlex : lex (recordsText msg) = recordsTokens msg ↔
      quote ∉ msg.sendName ∧ quote ∉ recordsName msg ∧ quote ∉ recordsName msg ∧
        quote ∉ msg.sendName := by
    simpa [recordsText_eq msg h, recordsTokens, h, selectTokens, equationTokens, spliceTokens]
      using hsplice
  rw [hlex]
  tauto

/-! ## The login -/

/-- A row of the table `User`. -/
structure UserRow where
  userName : Text
  password : Text
  userAddr : Text
  sockfd : Int
  speak : Int
  registerTime : Text
  deriving DecidableEq, Repr

def UserRow.column (c : Text) (row : UserRow) : Text :=
  if c = ascii "userName" then row.userName
  else if c = ascii "password" then row.password
  else if c = ascii "userAddr" then row.userAddr
  else if c = ascii "sockfd" then decimal row.sockfd
  else if c = ascii "speak" then decimal row.speak
  else row.registerTime

def userTable : Table UserRow where
  name := ascii "User"
  columns := [ascii "userName", ascii "password", ascii "userAddr", ascii "sockfd", ascii "speak",
    ascii "registerTime"]
  column := UserRow.column

/-- The reply to a query for a user, from the rows of the table. -/
def queryReply (text : Text) (table : List UserRow) : QueryReply :=
  match prepareSelect userTable text with
  | none => .cannotPrepare
  | some q => if q.rows userTable table = [] then .noRow else .row

/-- A login succeeds only if its name and password are those of a row. -/
def LoginSound (user : User) : Prop :=
  ∀ (table : List UserRow) (st st' : Store) (userList userList' : Ref) (msg : Message)
    (sockfd : Int),
    loginUser st userList msg user sockfd (queryReply (loginText user) table) =
      .ok (.success, st', userList') →
    ∃ row ∈ table, row.userName = user.userName ∧ row.password = user.password

/-- The condition of the statement that is meant. -/
def loginCondition (user : User) : Condition :=
  [[(.column (ascii "userName"), .value user.userName),
    (.column (ascii "password"), .value user.password)]]

theorem prepareSelect_login {user : User} (h : lex (loginText user) = loginTokens user) :
    prepareSelect userTable (loginText user) =
      some ⟨ascii "User", loginCondition user, none⟩ := by
  rw [prepareSelect, h]
  rfl

theorem holds_loginCondition (user : User) (row : UserRow) :
    (loginCondition user).holds userTable row = true ↔
      row.userName = user.userName ∧ row.password = user.password := by
  have hname : userTable.column (ascii "userName") row = row.userName := rfl
  have hpassword : userTable.column (ascii "password") row = row.password := rfl
  simp [loginCondition, Condition.holds, Operand.eval, hname, hpassword]

theorem loginSound_of_lex {user : User} (h : lex (loginText user) = loginTokens user) :
    LoginSound user := by
  intro table st st' userList userList' msg sockfd hlogin
  have hreply : queryReply (loginText user) table = .row :=
    ((loginUser_ret hlogin).1 rfl).2
  simp only [queryReply, prepareSelect_login h] at hreply
  by_cases hrows : Select.rows userTable ⟨ascii "User", loginCondition user, none⟩ table = []
  · simp [hrows] at hreply
  · rcases List.exists_mem_of_ne_nil _ hrows with ⟨row, hrow⟩
    rw [Select.rows, List.mem_filter] at hrow
    exact ⟨row, hrow.1, (holds_loginCondition user row).1 hrow.2⟩

/-! ## The requests -/

/-- Every statement has the tokens that are meant, and a login is sound. -/
structure Request.StructureKept (r : Request) : Prop where
  lexed : ∀ q ∈ r.statements, lex q.1 = q.2
  sound : ∀ user, r = .login user → LoginSound user

theorem statements_lexed_iff (r : Request) :
    (∀ q ∈ r.statements, lex q.1 = q.2) ↔ ∀ s ∈ r.userStrings, quote ∉ s := by
  cases r with
  | login user => simp [Request.statements, Request.userStrings, lex_loginText_iff]
  | register user timeNow =>
      by_cases hlong : 20 < user.userName.length
      · simp [Request.statements, Request.userStrings, hlong]
      · simp [Request.statements, Request.userStrings, hlong, lex_userText_iff,
          lex_registerText_iff]
  | groupChat msg =>
      have hlex := lex_messageText_iff (groupMessage msg)
      simpa [Request.statements, Request.userStrings, groupMessage, replyTo] using hlex
  | personalChat msg =>
      by_cases hself : msg.sendName = msg.recvName
      · simp [Request.statements, Request.userStrings, hself]
      · have hlex := lex_messageText_iff (personalMessage msg)
        simpa [Request.statements, Request.userStrings, hself, personalMessage, replyTo] using hlex
  | viewRecords msg =>
      by_cases hname : recordsName msg = []
      · simp [Request.statements, Request.userStrings, hname, lex_recordsText_group hname]
      · simp [Request.statements, Request.userStrings, hname, lex_recordsText_iff hname]

/-- The statements of a request have the structure that is meant exactly if none of the strings
put into them contains a quote. -/
theorem query_structure_iff (r : Request) :
    r.StructureKept ↔ ∀ s ∈ r.userStrings, quote ∉ s := by
  rw [← statements_lexed_iff]
  constructor
  · intro h
    exact h.lexed
  · intro h
    refine ⟨h, ?_⟩
    rintro user rfl
    exact loginSound_of_lex (h _ List.mem_cons_self)

/-- A login with a password that continues the condition. -/
def injectedUser : User :=
  { User.zero with
    userName := ascii "bob"
    password := ascii "' or '1'='1" }

/-- It succeeds as soon as anybody is registered. -/
theorem injected_login_succeeds :
    ¬ ∀ r : Request, (∀ s ∈ r.userStrings, 0 ∉ s) → r.StructureKept := by
  intro h
  have hkept := h (.login injectedUser) (by decide)
  have hrow := hkept.sound injectedUser rfl
    [⟨ascii "alice", ascii "secret", inetNtoa 16777343, 4, 0, asctime (gmtime 0)⟩]
    .empty _ none _ Message.zero 4 rfl
  revert hrow
  decide

end ChatRoom
end LinuxLearn
