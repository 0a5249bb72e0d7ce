import Mathlib.Data.Nat.Digits.Defs

/-!
`InetAddress`: an IPv4 address with a port, and its text.
-/

set_option autoImplicit false
set_option relaxedAutoImplicit false

namespace TcpMuduo

/-- `addr_.sin_addr`, octet by octet, and `addr_.sin_port` in host order. -/
structure InetAddress where
  octet1 : UInt8
  octet2 : UInt8
  octet3 : UInt8
  octet4 : UInt8
  port : UInt16
  deriving DecidableEq, Repr

/-- What `snprintf` leaves in a buffer of `size` characters, the terminating one included. -/
def snprintf (size : Nat) (text : String) : String := String.ofList (text.toList.take (size - 1))

namespace InetAddress

/-- The text of `::inet_ntop(AF_INET, ..)`. -/
def toIp (self : InetAddress) : String :=
  Nat.repr self.octet1.toNat ++ "." ++ Nat.repr self.octet2.toNat ++ "." ++
    Nat.repr self.octet3.toNat ++ "." ++ Nat.repr self.octet4.toNat

def toIpPort (self : InetAddress) : String := self.toIp ++ ":" ++ Nat.repr self.port.toNat

end InetAddress

theorem snprintf_eq {size : Nat} {text : String} (fits : text.length < size) :
    snprintf size text = text := by
  have whole : text.toList.length ≤ size - 1 := by
    rw [String.length_toList]
    omega
  rw [snprintf, List.take_of_length_le whole, String.ofList_toList]

namespace InetAddress

private theorem length_octet (n : UInt8) : (Nat.repr n.toNat).length ≤ 3 := by
  refine Nat.repr_length _ 3 (by decide) ?_
  have bound := n.toNat_lt
  omega

theorem length_toIpPort (self : InetAddress) : self.toIpPort.length ≤ 21 := by
  have first := length_octet self.octet1
  have second := length_octet self.octet2
  have third := length_octet self.octet3
  have fourth := length_octet self.octet4
  have port : (Nat.repr self.port.toNat).length ≤ 5 := by
    refine Nat.repr_length _ 5 (by decide) ?_
    have bound := self.port.toNat_lt
    omega
  have dot : ".".length = 1 := rfl
  have colon : ":".length = 1 := rfl
  simp only [toIpPort, toIp, String.length_append, dot, colon]
  omega

end InetAddress

/-- A number can be read back from its decimal digits. -/
theorem decimal_injective {m n : Nat} (h : Nat.repr m = Nat.repr n) : m = n := by
  have digits : Nat.toDigits 10 m = Nat.toDigits 10 n := by
    rw [← Nat.toList_repr, ← Nat.toList_repr, h]
  have read := congrArg (Nat.ofDigitChars 10 · 0) digits
  simpa using read

end TcpMuduo
