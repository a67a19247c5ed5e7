import EpollServer.Syscall

/-!
# Channels

`Channel` of `channel.h`, and what `Epoller::UndateChannel` and `Epoller::DeleteChannel` do to it. The
outcome of `epoll_ctl` is an argument: the kernel decides it.
-/

namespace EpollServer

structure Channel where
  clientFd : Fd
  listeningEvents : EpollEvents
  readyEvents : EpollEvents
  inEpoll : Bool
  failed : Bool
  tied : Bool
  deriving DecidableEq, Repr

namespace Channel

/-- The constructor; it leaves `tied` uninitialised. -/
def new (fd : Fd) (tied : Bool) : Channel where
  clientFd := fd
  listeningEvents := .none
  readyEvents := .none
  inEpoll := false
  failed := false
  tied := tied

/-- The operation `UndateChannel` asks for. -/
def ctl (chan : Channel) : EpollCtl := if chan.inEpoll then .mod else .add

/-- `Epoller::UndateChannel` after `epoll_ctl` succeeded or not. -/
def undateChannel (chan : Channel) (ok : Bool) : Channel :=
  if !chan.inEpoll then
    if !ok then { chan with failed := true } else { chan with inEpoll := true }
  else if !ok then { chan with failed := true } else chan

/-- `Epoller::DeleteChannel` after `epoll_ctl` succeeded or not. -/
def deleteChannel (chan : Channel) (ok : Bool) : Channel :=
  let chan := if !ok then { chan with failed := true } else chan
  { chan with inEpoll := false }

def setReadyEvents (chan : Channel) (events : EpollEvents) : Channel :=
  { chan with readyEvents := events }

def tie (chan : Channel) : Channel := { chan with tied := true }

/-- `listening_events |= events`. -/
def listen (chan : Channel) (events : EpollEvents) : Channel :=
  { chan with listeningEvents := chan.listeningEvents.union events }

def enableET (chan : Channel) (ok : Bool) : Channel :=
  (chan.listen { EpollEvents.none with epollet := true }).undateChannel ok

def enableRead (chan : Channel) (ok : Bool) : Channel :=
  (chan.listen { EpollEvents.none with epollin := true, epollpri := true }).undateChannel ok

def enableWrite (chan : Channel) (ok : Bool) : Channel :=
  (chan.listen { EpollEvents.none with epollout := true }).undateChannel ok

@[simp]
theorem listeningEvents_undateChannel (chan : Channel) (ok : Bool) :
    (chan.undateChannel ok).listeningEvents = chan.listeningEvents := by
  cases ok <;> cases hin : chan.inEpoll <;> simp [undateChannel, hin]

@[simp]
theorem listeningEvents_deleteChannel (chan : Channel) (ok : Bool) :
    (chan.deleteChannel ok).listeningEvents = chan.listeningEvents := by
  cases ok <;> simp [deleteChannel]

end Channel

end EpollServer
