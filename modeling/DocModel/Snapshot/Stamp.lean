import DocModel.Snapshot.Basic

/-!
# Build stamps

A stamp names a build by a random identifier and the time at which it was made, in the usual texts of both:
an identifier of version 4 and a date and time of day in UTC.
-/

namespace DocModel

namespace BuildStamp

/-- A number with zeros in front up to so many digits. -/
def padded (width n : Nat) : String :=
  let digits := Nat.toDigits 10 n
  String.ofList (List.replicate (width - digits.length) '0' ++ digits)

def hexByte (b : UInt8) : List Char := [Nat.digitChar (b.toNat / 16), Nat.digitChar (b.toNat % 16)]

/-- Sets the version and the variant in sixteen random bytes. -/
def marked (bytes : List UInt8) : List UInt8 :=
  (bytes.modify 6 fun b => b % 16 + 64).modify 8 fun b => b % 64 + 128

/-- The identifier that sixteen bytes are. -/
def identifier (bytes : List UInt8) : String :=
  let digits := (marked bytes).flatMap hexByte
  let part (start length : Nat) := String.ofList ((digits.drop start).take length)
  Text.join "-" [part 0 8, part 8 4, part 12 4, part 16 4, part 20 12]

/-- The year, month and day so many days after the first of January 1970. Years are counted from March on, so
that a leap day is the last day of its year. -/
def civilDate (days : Nat) : Nat × Nat × Nat :=
  let shifted := days + 719468
  let ofEra := shifted % 146097
  let yearOfEra := (ofEra - ofEra / 1460 + ofEra / 36524 - ofEra / 146096) / 365
  let ofYear := ofEra - (365 * yearOfEra + yearOfEra / 4 - yearOfEra / 100)
  let month := (5 * ofYear + 2) / 153
  let day := ofYear - (153 * month + 2) / 5 + 1
  let year := yearOfEra + shifted / 146097 * 400
  if month < 10 then (year, month + 3, day) else (year + 1, month - 9, day)

/-- The fraction of a second in as many digits as needed: none, three, six or nine. -/
def fraction (nanoseconds : Nat) : String :=
  if nanoseconds = 0 then ""
  else if nanoseconds % 1000000 = 0 then "." ++ padded 3 (nanoseconds / 1000000)
  else if nanoseconds % 1000 = 0 then "." ++ padded 6 (nanoseconds / 1000)
  else "." ++ padded 9 nanoseconds

/-- The date and time of day so many nanoseconds after the start of 1970. -/
def timeText (nanoseconds : Nat) : String :=
  let seconds := nanoseconds / 1000000000
  let (year, month, day) := civilDate (seconds / 86400)
  let clock := seconds % 86400
  let date := padded 4 year ++ "-" ++ padded 2 month ++ "-" ++ padded 2 day
  let time := padded 2 (clock / 3600) ++ ":" ++ padded 2 (clock / 60 % 60) ++ ":" ++ padded 2 (clock % 60)
  date ++ "T" ++ time ++ fraction (nanoseconds % 1000000000) ++ "Z"

/-- The stamp of some random bytes and a time. -/
def ofRandom (bytes : List UInt8) (nanoseconds : Nat) : BuildStamp :=
  ⟨identifier bytes, timeText nanoseconds⟩

end BuildStamp

end DocModel
