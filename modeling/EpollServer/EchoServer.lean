import EpollServer.Connection

/-!
# The echo server's callbacks

`EchoServer::onConnection` only looks up the peer's address. `EchoServer::onMessage` sends the read buffer
back.
-/

namespace EpollServer.EchoServer

/-- The calls that `onMessage` makes on the connection. -/
def onMessage (c : Connection) : List Call :=
  if c.state = .connected then [.send2 c.readBuffer] else []

end EpollServer.EchoServer
