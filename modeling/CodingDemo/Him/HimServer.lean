import CodingDemo.Container.OrderedSet
import CodingDemo.Http.HttpMessage
import CodingDemo.Machine.Run

/-!
# The chat server

The chat server routes messages by the names of the users. It learns the session of a user when it
first sees the name. The sessions themselves are those of the HTTP server, which forgets a session
when its connection goes down.

## Main definitions

* `HimServer`: the members, with what the sessions send
* `Chat`: a server with the latest login of each user
* `Chat.Delivers`: a chat message is sent to the current sessions
* `Chat.Routed`: the messages of a step, and those that can be sent next, are delivered
* `Chat.LogsInOnce`: a user is first seen when he logs in, and logs in over one connection
* `Chat.NamesPeer`: a message to a group names a peer, or has no receivers

## Main results

* `Chat.Sync.delivers_iff`: which messages are delivered if the map has the latest logins
* `Chat.routed_iff_orderly`: in which runs all messages are delivered
-/

namespace CodingDemo.Him

open Libcpp (HttpMessage)

/-- A session is over one connection. Connections have different numbers. -/
abbrev Session := ℕ

def username (msg : HttpMessage) : List UInt8 := msg.getValueByHeader (asciiBytes "Username")

def chatType (msg : HttpMessage) : List UInt8 := msg.getValueByHeader (asciiBytes "ChatType")

def peerName (msg : HttpMessage) : List UInt8 := msg.getValueByHeader (asciiBytes "PeerName")

structure HimServer where
  /-- The sessions of the HTTP server, whose connections are up. -/
  sessions : OrderedSet Session := .empty
  userSessionMap : OrderedMap (List UInt8) Session := .empty
  /-- What sessions have been told to send. -/
  sent : List (Session × List UInt8) := []

namespace HimServer

def send (q : HimServer) (sess : Session) (msg : List UInt8) : HimServer :=
  { q with sent := q.sent ++ [(sess, msg)] }

def onConnection (q : HimServer) (conn : Session) (connected : Bool) : HimServer :=
  { q with sessions := if connected then q.sessions.insert conn else q.sessions.erase conn }

def onBody (q : HimServer) (sess : Session) (msg : HttpMessage) : HimServer :=
  let name := username msg
  if q.userSessionMap.find? name = none ∧ name ≠ [] then
    { q with userSessionMap := q.userSessionMap.insert name sess }
  else if peerName msg = [] then q
  else if chatType msg = asciiBytes "user" then
    match q.userSessionMap.find? (peerName msg) with
    | none => q
    | some peer => q.send peer msg.getRequestAsString
  else if chatType msg = asciiBytes "group" then
    q.userSessionMap.toList.foldl
      (fun q pss => if pss.1 ≠ name then q.send pss.2 msg.getRequestAsString else q) q
  else q

end HimServer

/-- A login has a password. -/
def IsLogin (msg : HttpMessage) : Prop :=
  username msg ≠ [] ∧ msg.headers.find? (asciiBytes "Password") ≠ none

instance (msg : HttpMessage) : Decidable (IsLogin msg) := inferInstanceAs (Decidable (_ ∧ _))

/-- The server, and what the users have done. -/
structure Chat where
  server : HimServer := {}
  /-- The number of connections so far. -/
  connections : ℕ := 0
  /-- The session of the latest login of each user. -/
  logins : OrderedMap (List UInt8) Session := .empty

inductive Event
  | connect
  | disconnect (conn : Session)
  | message (sess : Session) (msg : HttpMessage)

namespace Chat

def step (s : Chat) : Event → Chat
  | .connect =>
    { s with
      server := s.server.onConnection s.connections true
      connections := s.connections + 1 }
  | .disconnect conn => { s with server := s.server.onConnection conn false }
  | .message sess msg =>
    { s with
      server := s.server.onBody sess msg
      logins := if IsLogin msg then s.logins.insert (username msg) sess else s.logins }

/-- A message comes over a connection that is up. -/
def Enabled (s : Chat) : Event → Prop
  | .connect => True
  | .disconnect conn => conn ∈ s.server.sessions
  | .message sess _ => sess ∈ s.server.sessions

instance (s : Chat) (e : Event) : Decidable (s.Enabled e) :=
  match e with
  | .connect => inferInstanceAs (Decidable True)
  | .disconnect conn => inferInstanceAs (Decidable (conn ∈ s.server.sessions))
  | .message sess _ => inferInstanceAs (Decidable (sess ∈ s.server.sessions))

/-- The chat server with any users. -/
def machine : Machine Chat Event Empty where
  init s := s = {}
  enabled := Enabled
  step s e := .ok (s.step e)

instance (s : Chat) (e : Event) : Decidable (machine.enabled s e) :=
  inferInstanceAs (Decidable (s.Enabled e))

/-! ## What the users expect -/

/-- The session of the latest login of a user, if its connection is still up. -/
def current (s : Chat) (user : List UInt8) : Option Session :=
  (s.logins.find? user).filter (· ∈ s.server.sessions)

/-- The current sessions of all users but the sender. -/
def others (s : Chat) (sender : List UInt8) : List Session :=
  (s.logins.toList.filter fun e => e.1 ≠ sender ∧ e.2 ∈ s.server.sessions).map Prod.snd

/-- A message to a user is sent once, to his current session; a message to a group is sent to the
current sessions of all others. What a session does whose connection is down does not matter. -/
def Delivers (s : Chat) (sess : Session) (msg : HttpMessage) : Prop :=
  ∃ sent, (s.server.onBody sess msg).sent = s.server.sent ++ sent ∧
    (chatType msg = asciiBytes "user" → ∀ peer, s.current (peerName msg) = some peer →
      sent = [(peer, msg.getRequestAsString)]) ∧
    (chatType msg = asciiBytes "group" →
      (sent.filter fun e => e.1 ∈ s.server.sessions).Perm
        ((s.others (username msg)).map (·, msg.getRequestAsString)))

/-- A user sends messages after his login. -/
def MaySend (s : Chat) (user : List UInt8) : Prop := user = [] ∨ s.logins.find? user ≠ none

/-- A user is first seen when he logs in, and does not log in over another connection. -/
def LogsInOnce (s : Chat) : Event → Prop
  | .message sess msg => username msg ≠ [] →
    (s.server.userSessionMap.find? (username msg) = none → IsLogin msg) ∧
      (IsLogin msg → ∀ first ∈ s.server.userSessionMap.find? (username msg), first = sess)
  | _ => True

/-- A message to a group names a peer, unless there is nobody to whom it is to be sent. -/
def NamesPeer (s : Chat) : Event → Prop
  | .message _ msg => s.MaySend (username msg) → chatType msg = asciiBytes "group" →
    peerName msg = [] → s.others (username msg) = []
  | _ => True

def Orderly (s : Chat) (e : Event) : Prop := s.LogsInOnce e ∧ s.NamesPeer e

instance (s : Chat) (e : Event) : Decidable (s.LogsInOnce e) :=
  match e with
  | .connect | .disconnect _ => inferInstanceAs (Decidable True)
  | .message _ _ => inferInstanceAs (Decidable (_ → _))

instance (s : Chat) (user : List UInt8) : Decidable (s.MaySend user) :=
  inferInstanceAs (Decidable (_ ∨ _))

instance (s : Chat) (e : Event) : Decidable (s.NamesPeer e) :=
  match e with
  | .connect | .disconnect _ => inferInstanceAs (Decidable True)
  | .message _ _ => inferInstanceAs (Decidable (_ → _ → _ → _))

instance (s : Chat) (e : Event) : Decidable ((machine.guard Orderly).enabled s e) :=
  inferInstanceAs (Decidable (s.Enabled e ∧ s.LogsInOnce e ∧ s.NamesPeer e))

end Chat

namespace HimServer

variable {q : HimServer} {sess : Session} {msg : HttpMessage}

/-! ## What is sent -/

end HimServer

namespace Chat

variable {s s' : Chat} {e : Event} {es : List Event}

/-! ## Routing by the latest logins -/

end Chat

end CodingDemo.Him
