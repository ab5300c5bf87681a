/-
Words as bytes, the low byte first.
-/

namespace ArrayEngine.Bytes

/-- the four bytes of a word -/
def ofWord (w : UInt32) : List UInt8 :=
  [w.toUInt8, (w >>> 8).toUInt8, (w >>> 16).toUInt8, (w >>> 24).toUInt8]

/-- the word of four bytes -/
def toWord (a b c d : UInt8) : UInt32 :=
  a.toUInt32 ||| b.toUInt32 <<< 8 ||| c.toUInt32 <<< 16 ||| d.toUInt32 <<< 24

def ofWords (ws : List UInt32) : List UInt8 := ws.flatMap ofWord

/-- the words of a list of bytes; bytes at the end that make no whole word are left out -/
def toWords : List UInt8 → List UInt32
  | a :: b :: c :: d :: rest => toWord a b c d :: toWords rest
  | _ => []

end ArrayEngine.Bytes
