import PeakLang.Number.Power
import PeakLang.Text

namespace PeakLang.Duration

/-- A number in units of ten to the power `places`, without zeros at the end of its fraction. -/
def decimal (places : Nat) (n : Nat) : Text :=
  let unit := tenTo places
  let digits := Text.ofNat (n % unit)
  let fraction := List.replicate (places - digits.length) 48 ++ digits
  let shown := (fraction.reverse.dropWhile fun b => b == 48).reverse
  let point : Text := if shown.isEmpty then [] else "."
  Text.ofNat (n / unit) ++ point ++ shown

/-- Seconds with minutes and hours before them, where there are any. -/
def clock (nanoseconds : Nat) : Text :=
  let minute := 60 * tenTo 9
  let seconds : Text := decimal 9 (nanoseconds % minute) ++ "s"
  let minutes := nanoseconds / minute
  if minutes == 0 then seconds
  else if minutes < 60 then Text.ofNat minutes ++ "m" ++ seconds
  else Text.ofNat (minutes / 60) ++ "h" ++ Text.ofNat (minutes % 60) ++ "m" ++ seconds

/-- A number of nanoseconds in words. -/
def text (nanoseconds : Nat) : Text :=
  if nanoseconds == 0 then "0s"
  else if nanoseconds < tenTo 3 then Text.ofNat nanoseconds ++ "ns"
  else if nanoseconds < tenTo 6 then decimal 3 nanoseconds ++ "µs"
  else if nanoseconds < tenTo 9 then decimal 6 nanoseconds ++ "ms"
  else clock nanoseconds

end PeakLang.Duration
