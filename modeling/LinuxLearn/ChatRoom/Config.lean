import Mathlib.Tactic

/-!
# Config — the records of the chat room

The types of `config.h` and the functions of `config.c`.  A fixed-size character array is modelled
by the C string that it holds, and the arrays are taken as large enough for it.
-/

namespace LinuxLearn
namespace ChatRoom

/-- A C string, without its terminating zero. -/
abbrev CString := List UInt8

/-! ## Enumerations -/

inductive MessageType
  | register
  | login
  | help
  | exit
  | viewUserList
  | groupChat
  | personalChat
  | viewRecords
  | result
  | unkonwn
  deriving DecidableEq, Repr

namespace MessageType

def code : MessageType → Int
  | register => 1
  | login => 2
  | help => 3
  | exit => 4
  | viewUserList => 5
  | groupChat => 6
  | personalChat => 7
  | viewRecords => 8
  | result => 9
  | unkonwn => 10

/-- The case of a `switch (message.msgType)`; `none` is the default case. -/
def ofCode : Int → Option MessageType
  | 1 => some register
  | 2 => some login
  | 3 => some help
  | 4 => some exit
  | 5 => some viewUserList
  | 6 => some groupChat
  | 7 => some personalChat
  | 8 => some viewRecords
  | 9 => some result
  | 10 => some unkonwn
  | _ => none

@[simp] theorem ofCode_code (t : MessageType) : ofCode t.code = some t := by
  cases t <;> rfl

theorem eq_code_of_ofCode {n : Int} {t : MessageType} (h : ofCode n = some t) : n = t.code := by
  unfold ofCode at h
  split at h <;> cases h <;> rfl

end MessageType

inductive StateRet
  | exceed
  | success
  | failed
  | duplicateid
  | invalid
  | idNotExist
  | wrongpwd
  | alreadyOnline
  | idNotOnline
  | allNotOnline
  | messageSelf
  deriving DecidableEq, Repr

namespace StateRet

def code : StateRet → Int
  | exceed => 0
  | success => 1
  | failed => 2
  | duplicateid => 3
  | invalid => 4
  | idNotExist => 5
  | wrongpwd => 6
  | alreadyOnline => 7
  | idNotOnline => 8
  | allNotOnline => 9
  | messageSelf => 10

end StateRet

/-! ## Records -/

/-- `struct sockaddr_in` -/
structure SockAddr where
  family : Nat
  port : Nat
  addr : Nat
  deriving DecidableEq, Repr

def SockAddr.zero : SockAddr :=
  ⟨0, 0, 0⟩

structure Message where
  content : CString
  msgType : Int
  msgRet : Int
  sendAddr : SockAddr
  recvAddr : SockAddr
  sendName : CString
  recvName : CString
  msgTime : CString
  deriving DecidableEq, Repr

/-- `memset(&message, 0, sizeof(message))` -/
def Message.zero : Message :=
  ⟨[], 0, 0, .zero, .zero, [], [], []⟩

structure User where
  userName : CString
  password : CString
  userAddr : SockAddr
  sockfd : Int
  speak : Int
  registerTime : CString
  deriving DecidableEq, Repr

/-- `memset(&user, 0, sizeof(user))` -/
def User.zero : User :=
  ⟨[], [], .zero, 0, 0, []⟩

/-! ## `config.c` -/

def stateMsg (stateRet : StateRet) : CString :=
  let text :=
    match stateRet with
    | .exceed => "已达服务器链接上限！\n"
    | .success => "操作成功！\n"
    | .failed => "操作失败！\n"
    | .duplicateid => "重复的用户名！\n"
    | .invalid => "不合法输入！\n"
    | .idNotExist => "账号不存在！\n"
    | .wrongpwd => "密码错误！\n"
    | .alreadyOnline => "该用户已在线！\n"
    | .idNotOnline => "该用户不在线！\n"
    | .allNotOnline => "无人在线！\n"
    | .messageSelf => "不能给自己发送消息\n"
  text.toUTF8.toList

/-- `user1` after the copy.  The last assignment copies the source's `registerTime` to itself. -/
def copyUser (user1 user2 : User) : User :=
  { user1 with
    userName := user2.userName
    password := user2.password
    userAddr := user2.userAddr
    sockfd := user2.sockfd
    speak := user2.speak }

@[simp] theorem copyUser_userName (user1 user2 : User) :
    (copyUser user1 user2).userName = user2.userName := rfl

end ChatRoom
end LinuxLearn
