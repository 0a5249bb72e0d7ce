/-!
Results of the system calls whose outcome the library branches on.
-/

set_option autoImplicit false
set_option relaxedAutoImplicit false

namespace TcpMuduo

/-- The values of `errno` the code compares with, and all others. -/
inductive Errno
  | EWOULDBLOCK
  | EINTR
  | EPIPE
  | ECONNRESET
  | other (code : Nat)
  deriving DecidableEq, Repr

/-- What `::write` returns: a count, or -1 with an error number. -/
inductive WriteResult
  | wrote (n : Nat)
  | failed (e : Errno)
  deriving DecidableEq, Repr

/-- What `::readv` returns: the bytes it scattered over the given areas, or -1 with an error
number. -/
inductive ReadvResult
  | got (bytes : List UInt8)
  | failed (e : Errno)
  deriving DecidableEq, Repr

def WriteResult.ret : WriteResult → Int
  | .wrote n => n
  | .failed _ => -1

def ReadvResult.ret : ReadvResult → Int
  | .got bytes => bytes.length
  | .failed _ => -1

/-- `::write` accepts at most what it was offered. -/
def WriteResult.Fits (r : WriteResult) (offered : Nat) : Prop :=
  match r with
  | .wrote n => n ≤ offered
  | .failed _ => True

/-- `::readv` delivers at most the total length of its areas. -/
def ReadvResult.Fits (r : ReadvResult) (room : Nat) : Prop :=
  match r with
  | .got bytes => bytes.length ≤ room
  | .failed _ => True

instance (r : WriteResult) (offered : Nat) : Decidable (r.Fits offered) :=
  match r with
  | .wrote n => inferInstanceAs (Decidable (n ≤ offered))
  | .failed _ => inferInstanceAs (Decidable True)

instance (r : ReadvResult) (room : Nat) : Decidable (r.Fits room) :=
  match r with
  | .got bytes => inferInstanceAs (Decidable (bytes.length ≤ room))
  | .failed _ => inferInstanceAs (Decidable True)

/-- The bytes of `offered` that the kernel took over. -/
def WriteResult.taken (r : WriteResult) (offered : List UInt8) : List UInt8 :=
  match r with
  | .wrote n => offered.take n
  | .failed _ => []

end TcpMuduo
