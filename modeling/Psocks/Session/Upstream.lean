import Psocks.Session.Tcp

namespace Psocks.SessionTcp
open Pbufs RingBuffer
variable {m next : Machine}

end Psocks.SessionTcp
