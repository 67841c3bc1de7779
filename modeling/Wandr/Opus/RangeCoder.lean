import Mathlib.Data.List.GetD
import Wandr.Lib.RangeCode

/-!
# The range coder

The packets of the audio of a call are written with a range coder. From the front of a packet it
writes symbols, each of them a part of a range that the probability of the symbol tells, and from
the back it writes bits as they are.

An unsigned number of 32 bits is a natural number here, and what wraps around is said to.
-/

namespace Wandr.Opus

/-! ## Numbers of 32 bits -/

def wrappingAdd (a b : Nat) : Nat := (a + b) % 2 ^ 32

def wrappingSub (a b : Nat) : Nat := (a + (2 ^ 32 - b)) % 2 ^ 32

def wrappingMul (a b : Nat) : Nat := a * b % 2 ^ 32

/-- How many bits a number has. -/
def ilog (n : Nat) : Nat := if n = 0 then 0 else Nat.log2 n + 1

theorem wrappingAdd_of_lt {a b : Nat} (h : a + b < 2 ^ 32) : wrappingAdd a b = a + b :=
  Nat.mod_eq_of_lt h

theorem wrappingSub_of_le {a b : Nat} (h : b ≤ a) (ha : a < 2 ^ 32) :
    wrappingSub a b = a - b := by
  rw [wrappingSub]
  omega

theorem wrappingMul_of_lt {a b : Nat} (h : a * b < 2 ^ 32) : wrappingMul a b = a * b :=
  Nat.mod_eq_of_lt h

theorem ilog_le {n k : Nat} (h : n < 2 ^ k) : ilog n ≤ k := by
  rw [ilog]
  split_ifs with hn
  · exact Nat.zero_le k
  · exact (Nat.log2_lt hn).2 h

theorem two_pow_ilog_le {n : Nat} (h : n ≠ 0) : 2 ^ (ilog n - 1) ≤ n := by
  rw [ilog, if_neg h, Nat.add_sub_cancel]
  exact Nat.log2_self_le h

theorem lt_two_pow_ilog (n : Nat) : n < 2 ^ ilog n := by
  rw [ilog]
  split_ifs with h
  · rw [h]
    decide
  · exact Nat.lt_log2_self

/-! ## The coder -/

/-- The top of the range, the bottom below which there is another byte to be written, and what a
    number is to be shifted by to get at that byte. -/
abbrev codeTop : Nat := 0x80000000

abbrev codeBot : Nat := 0x800000

abbrev codeShift : Nat := 23

abbrev symMax : Nat := 255

/-- A range coder, which writes a packet or reads one. The byte that is held back is none at
    first. -/
structure RangeCoder where
  buf : List UInt8
  storage : Nat
  endOffs : Nat := 0
  endWindow : Nat := 0
  nendBits : Nat := 0
  nbitsTotal : Nat
  offs : Nat := 0
  rng : Nat
  val : Nat := 0
  ext : Nat := 0
  rem : Option UInt8 := none
  error : Int := 0
  deriving DecidableEq

namespace RangeCoder

variable (c : RangeCoder)

/-- The number of bits so far, rounded up. -/
def tell : Int := c.nbitsTotal - ilog c.rng

/-! ### Writing -/

def newEncoder (size : Nat) : RangeCoder where
  buf := List.replicate size 0
  storage := size
  nbitsTotal := 33
  rng := codeTop

def writeByte (value : UInt8) : RangeCoder :=
  if c.offs + c.endOffs < c.storage then
    { c with buf := c.buf.set c.offs value, offs := c.offs + 1 }
  else { c with error := 1 }

/-- Write a byte so many times. -/
def writeBytes : Nat → UInt8 → RangeCoder → RangeCoder
  | 0, _, c => c
  | n + 1, value, c => writeBytes n value (c.writeByte value)

def writeByteAtEnd (value : UInt8) : RangeCoder :=
  if c.offs + c.endOffs < c.storage then
    { c with
      buf := c.buf.set (c.storage - (c.endOffs + 1)) value
      endOffs := c.endOffs + 1 }
  else { c with error := 1 }

/-- Write the byte that is held back, if there is one, and what is carried to it. -/
def writeRem (carry : Nat) : RangeCoder :=
  match c.rem with
  | some rem => c.writeByte (rem + UInt8.ofNat carry)
  | none => c

/-- Write a digit, which may carry. -/
def carryOut (x : Nat) : RangeCoder :=
  if x ≠ symMax then
    let carry := x >>> 8
    let c := c.writeRem carry
    let sym := (symMax + carry) &&& symMax
    { writeBytes c.ext (UInt8.ofNat sym) c with
      ext := 0
      rem := some (UInt8.ofNat (x &&& symMax)) }
  else { c with ext := c.ext + 1 }

/-- Write the digit that is settled. -/
def shiftOut : RangeCoder :=
  let c := c.carryOut (c.val >>> codeShift)
  { c with
    val := (c.val <<< 8) &&& (codeTop - 1)
    rng := c.rng <<< 8
    nbitsTotal := c.nbitsTotal + 8 }

/-- Write digits while the range is small. If it is not empty, three of them are enough. -/
def normalizeEncoder (c : RangeCoder) : RangeCoder := go 3 c
where
  go : Nat → RangeCoder → RangeCoder
    | 0, c => c
    | n + 1, c => if c.rng ≤ codeBot then go n c.shiftOut else c

/-- Write a symbol, whose part of a total of `ft` is from `fl` on and before `fh`. -/
def encode (fl fh ft : Nat) : RangeCoder :=
  let r := c.rng / ft
  normalizeEncoder <|
    if 0 < fl then
      { c with
        val := wrappingAdd c.val (wrappingSub c.rng (wrappingMul r (wrappingSub ft fl)))
        rng := wrappingMul r (wrappingSub fh fl) }
    else { c with rng := wrappingSub c.rng (wrappingMul r (wrappingSub ft fh)) }

/-- Write whether something is so whose probability is one in `2 ^ logp`. -/
def encodeBitLogp (val : Bool) (logp : Nat) : RangeCoder :=
  let s := c.rng >>> logp
  let r := wrappingSub c.rng s
  normalizeEncoder <|
    if val then { c with val := wrappingAdd c.val r, rng := s } else { c with rng := r }

/-- Write a symbol, of which a table tells how many of `2 ^ ftb` are behind its part. -/
def encodeIcdf (s : Nat) (icdf : List UInt8) (ftb : Nat) : RangeCoder :=
  let r := c.rng >>> ftb
  normalizeEncoder <|
    if 0 < s then
      let val := (icdf.getD (s - 1) 0).toNat
      let lower := (icdf.getD s 0).toNat
      { c with
        val := wrappingAdd c.val (wrappingSub c.rng (wrappingMul r val))
        rng := wrappingMul r (wrappingSub val lower) }
    else { c with rng := wrappingSub c.rng (wrappingMul r (icdf.getD s 0).toNat) }

/-- Write the lowest bytes of the window at the end. -/
def flushEnd : Nat → RangeCoder → Nat → RangeCoder × Nat
  | 0, c, window => (c, window)
  | n + 1, c, window =>
    flushEnd n (c.writeByteAtEnd (UInt8.ofNat (window &&& symMax))) (window >>> 8)

/-- Write bits as they are. Where there is no room for them in the window, its whole bytes are
    written first. -/
def encBits (val bits : Nat) : RangeCoder :=
  if bits = 0 then c
  else
    let (c, window, used) :=
      if c.nendBits + bits > 32 then
        let (c', window) := flushEnd (c.nendBits / 8) c c.endWindow
        (c', window, c.nendBits % 8)
      else (c, c.endWindow, c.nendBits)
    { c with
      endWindow := window ||| (val &&& (1 <<< bits - 1)) <<< used
      nendBits := used + bits
      nbitsTotal := c.nbitsTotal + bits }

/-- Write a number below another one: its first bits as a symbol, and the others as they are. -/
def encUint (fl ft : Nat) : RangeCoder :=
  if 1 < ft then
    let ftb := ilog (ft - 1)
    if 8 < ftb then
      let s := ftb - 8
      let flLow := fl &&& (1 <<< s - 1)
      let fl := fl >>> s
      let ft := (ft - 1) >>> s + 1
      (c.encode fl (fl + 1) ft).encBits flLow s
    else c.encode fl (fl + 1) ft
  else c

/-- Write what is left of the number that was settled on. -/
def flushCode : Nat → RangeCoder → Nat → Int → RangeCoder × Int
  | 0, c, _, l => (c, l)
  | n + 1, c, last, l =>
    if 0 < l then
      flushCode n (c.carryOut (last >>> codeShift)) ((last <<< 8) &&& (codeTop - 1)) (l - 8)
    else (c, l)

/-- The number with the fewest bits in the range, and how many bits of it matter. -/
def lastCode : Nat × Nat :=
  let l := 32 - ilog c.rng
  let msk := (codeTop - 1) >>> l
  let last := wrappingAdd c.val msk &&& (2 ^ 32 - 1 - msk)
  if last ||| msk ≥ wrappingAdd c.val c.rng then
    let msk := msk >>> 1
    (wrappingAdd c.val msk &&& (2 ^ 32 - 1 - msk), l + 1)
  else (last, l)

/-- Write the digits that are held back. -/
def flushHeld : RangeCoder := if c.rem.isSome ∨ 0 < c.ext then c.carryOut 0 else c

/-- The bytes that are neither at the front nor at the end are zeros. -/
def clearMiddle : RangeCoder :=
  { c with
    buf := c.buf.mapIdx fun i b => if c.offs ≤ i ∧ i < c.storage - c.endOffs then 0 else b }

/-- Add the bits that are left to the byte before the end. If that is the last one at the front, of
    which only so many bits are free, and there are more of them, they are cut off. -/
def addRest (window used : Nat) (l : Int) : RangeCoder :=
  if c.storage ≤ c.endOffs then { c with error := -1 }
  else
    let bust := c.storage ≤ c.offs + c.endOffs ∧ -l < used
    let window := if bust then window &&& (1 <<< (-l).toNat - 1) else window
    let i := c.storage - c.endOffs - 1
    { c with
      error := if bust then -1 else c.error
      buf := c.buf.set i (c.buf.getD i 0 ||| UInt8.ofNat window) }

/-- The packet is complete: settle on a number in the range, and write what is left. -/
def done : RangeCoder :=
  let (last, l) := c.lastCode
  let (c, l) := flushCode l c last l
  let c := c.flushHeld
  let used := c.nendBits % 8
  let (c, window) := flushEnd (c.nendBits / 8) c c.endWindow
  if c.error = 0 then
    let c := c.clearMiddle
    if 0 < used then c.addRest window used l else c
  else c

/-! ### Reading -/

/-- The next byte, and zeros once there is none. -/
def readByte : RangeCoder × UInt8 :=
  if c.offs < c.storage then ({ c with offs := c.offs + 1 }, c.buf.getD c.offs 0) else (c, 0)

/-- Read another digit. The bytes are shifted by a bit against the digits. -/
def shiftIn : RangeCoder :=
  let sym := c.rem.getD 0
  let (c, rem) := c.readByte
  let combined := (sym.toNat <<< 8 ||| rem.toNat) >>> 1
  { c with
    nbitsTotal := c.nbitsTotal + 8
    rng := c.rng <<< 8
    rem := some rem
    val := wrappingAdd (c.val <<< 8) (symMax - (combined &&& symMax)) &&& (codeTop - 1) }

/-- Read digits while the range is small, but no more than a hundred. -/
def normalizeDecoder (c : RangeCoder) : RangeCoder := go 100 c
where
  go : Nat → RangeCoder → RangeCoder
    | 0, c => if c.rng ≤ codeBot then { c with error := 1, rng := codeBot + 1 } else c
    | n + 1, c => if c.rng ≤ codeBot then go n c.shiftIn else c

def newDecoder (data : List UInt8) : RangeCoder :=
  let c : RangeCoder := { buf := data, storage := data.length, nbitsTotal := 9, rng := 1 <<< 7 }
  let (c, rem) := c.readByte
  normalizeDecoder { c with
    rem := some rem
    val := wrappingSub (wrappingSub c.rng 1) (rem.toNat >>> 1) }

/-- Where the number that was read is, of a total of `ft`. -/
def decode (ft : Nat) : RangeCoder × Nat :=
  let r := c.rng / ft
  ({ c with ext := r }, ft - min ft (wrappingAdd (c.val / r) 1))

/-- Go on behind a symbol that was decoded. -/
def update (fl fh ft : Nat) : RangeCoder :=
  let s := wrappingMul c.ext (wrappingSub ft fh)
  normalizeDecoder { c with
    val := wrappingSub c.val s
    rng := if 0 < fl then wrappingMul c.ext (wrappingSub fh fl) else wrappingSub c.rng s }

def decodeBitLogp (logp : Nat) : RangeCoder × Bool :=
  let s := c.rng >>> logp
  let ret := decide (c.val < s)
  (normalizeDecoder <|
    if ret then { c with rng := s }
    else { c with val := wrappingSub c.val s, rng := wrappingSub c.rng s }, ret)

/-- The first entry of a table that the number that was read is not below: the bounds of its part,
    and its index. -/
def searchIcdf (r d : Nat) : List UInt8 → Nat → Nat → Nat × Nat × Nat
  | [], t, ret => (t, t, ret)
  | b :: icdf, t, ret =>
    let s := wrappingMul r b.toNat
    if s ≤ d then (t, s, ret) else searchIcdf r d icdf s (ret + 1)

def decodeIcdf (icdf : List UInt8) (ftb : Nat) : RangeCoder × Nat :=
  let (t, s, ret) := searchIcdf (c.rng >>> ftb) c.val icdf c.rng 0
  (normalizeDecoder { c with val := wrappingSub c.val s, rng := wrappingSub t s }, ret)

/-- The next byte from the end, and zeros once there is none. -/
def readByteAtEnd : RangeCoder × UInt8 :=
  if c.endOffs < c.storage then
    ({ c with endOffs := c.endOffs + 1 }, c.buf.getD (c.storage - (c.endOffs + 1)) 0)
  else (c, 0)

/-- Put it into the window. -/
def fillByte : RangeCoder :=
  let (c, byte) := c.readByteAtEnd
  { c with
    endWindow := c.endWindow ||| byte.toNat <<< c.nendBits
    nendBits := c.nendBits + 8 }

/-- Fill the window, as long as there is room for a byte. -/
def fillWindow : Nat → RangeCoder → RangeCoder
  | 0, c => c
  | n + 1, c => if c.fillByte.nendBits > 24 then c.fillByte else fillWindow n c.fillByte

/-- Read bits as they are. -/
def decBits (bits : Nat) : RangeCoder × Nat :=
  if bits = 0 then (c, 0)
  else
    let c := if c.nendBits < bits then fillWindow 4 c else c
    ({ c with
      endWindow := c.endWindow >>> bits
      nendBits := c.nendBits - bits
      nbitsTotal := c.nbitsTotal + bits }, c.endWindow &&& (1 <<< bits - 1))

/-- Read a number below another one. -/
def decUint (ft : Nat) : RangeCoder × Nat :=
  if 1 < ft then
    let ftb := ilog (ft - 1)
    if 8 < ftb then
      let s := ftb - 8
      let ft := (ft - 1) >>> s + 1
      let (c, fs) := c.decode ft
      let (c, r) := (c.update fs (fs + 1) ft).decBits s
      (c, fs <<< s ||| r)
    else
      let (c, fs) := c.decode ft
      (c.update fs (fs + 1) ft, fs)
  else (c, 0)

end RangeCoder

end Wandr.Opus
