import Wandr.Lib.Slice
import Wandr.NetDaemon.Control

/-!
# The reply of a DHCP server

A reply is a header, a cookie, and options in any order, each a code, a length and a value. The
client reads it by index.

* `parseReply` is the reader, `Reply` what a server sends, and `Reply.expected` what it means;
* `parseReply_of_header`: what comes of a packet that is long enough;
* `parseOptions_fields`: the options take effect in their order;
* `parseReply_spec`: a reply is read as it is meant if and only if its router option has one
  address, no packet is read outside of it, and what is not a reply to the client is not read.
-/

namespace Wandr.Dhcp

open Slice

/-! ## The reader -/

/-- The fields of a reply that are used. -/
@[ext]
structure DhcpReply where
  msgType : UInt8 := 0
  yiaddr : Ipv4 := ⟨0, 0, 0, 0⟩
  subnet : Option Ipv4 := none
  router : Option Ipv4 := none
  dns : List Ipv4 := []
  leaseSecs : UInt32 := 0
  serverId : Option Ipv4 := none
  deriving DecidableEq

def opReply : UInt8 := 2

def magicCookie : List UInt8 := [99, 130, 83, 99]

def optSubnet : UInt8 := 1
def optRouter : UInt8 := 3
def optDns : UInt8 := 6
def optLease : UInt8 := 51
def optMsgType : UInt8 := 53
def optServerId : UInt8 := 54
def optEnd : UInt8 := 255

/-- A number of four bytes, the highest one first. -/
def fromBeBytes (a b c d : UInt8) : UInt32 :=
  UInt32.ofNat (((a.toNat * 256 + b.toNat) * 256 + c.toNat) * 256 + d.toNat)

def ipv4 (b : List UInt8) : Checked (Option Ipv4) := do
  if b.length = 4 then return some ⟨← get b 0, ← get b 1, ← get b 2, ← get b 3⟩
  else return none

/-- The value in fours, the last of which may be shorter. -/
def chunks : List UInt8 → List (List UInt8)
  | [] => []
  | a :: b :: c :: d :: bs => [a, b, c, d] :: chunks bs
  | bs => [bs]

/-- What an option sets. -/
def takeOption (code : UInt8) (val : List UInt8) (out : DhcpReply) : Checked DhcpReply := do
  if code = optMsgType then return { out with msgType := val.head?.getD out.msgType }
  else if code = optSubnet then return { out with subnet := ← ipv4 val }
  else if code = optRouter then return { out with router := ← ipv4 val }
  else if code = optDns then return { out with dns := (← (chunks val).mapM ipv4).reduceOption }
  else if code = optLease then
    if val.length = 4 then
      let secs := fromBeBytes (← get val 0) (← get val 1) (← get val 2) (← get val 3)
      return { out with leaseSecs := secs }
    else return out
  else if code = optServerId then return { out with serverId := ← ipv4 val }
  else return out

/-- The options from an index on. -/
def parseOptions (buf : List UInt8) (i : Nat) (out : DhcpReply) : Checked DhcpReply :=
  if i < buf.length then do
    let code ← get buf i
    if code = optEnd then return out
    else if code = 0 then parseOptions buf (i + 1) out
    else if buf.length ≤ i + 1 then return out
    else
      let len ← get buf (i + 1)
      let valStart := i + 2
      let valEnd := valStart + len.toNat
      if buf.length < valEnd then return out
      else
        let val ← sub buf valStart valEnd
        let out ← takeOption code val out
        parseOptions buf valEnd out
  else return out
termination_by buf.length - i

/-- The reply that a packet is, if it is one to a request of this number. -/
def parseReply (buf : List UInt8) (expectXid : UInt32) : Checked (Option DhcpReply) := do
  if buf.length < 240 then return none
  if (← get buf 0) ≠ opReply then return none
  let xid := fromBeBytes (← get buf 4) (← get buf 5) (← get buf 6) (← get buf 7)
  if xid ≠ expectXid then return none
  let some yiaddr ← ipv4 (← sub buf 16 20) | return none
  if (← sub buf 236 240) ≠ magicCookie then return none
  let out ← parseOptions buf 240 { yiaddr }
  if out.msgType = 0 then return none
  return some out

/-! ## No read is outside -/

variable {buf p tail : List UInt8} {out : DhcpReply}

theorem ipv4_safe (b : List UInt8) : Safe (ipv4 b) := by
  unfold ipv4
  split
  · exact (Safe.get (by omega)).bind fun _ => (Safe.get (by omega)).bind fun _ =>
      (Safe.get (by omega)).bind fun _ => (Safe.get (by omega)).bind fun _ => .ok _
  · exact .ok _

theorem takeOption_safe (code : UInt8) (val : List UInt8) (out : DhcpReply) :
    Safe (takeOption code val out) := by
  unfold takeOption
  split_ifs with _ _ _ _ _ hlen
  · exact .ok _
  · exact (ipv4_safe val).bind fun _ => .ok _
  · exact (ipv4_safe val).bind fun _ => .ok _
  · exact (Safe.mapM fun b _ => ipv4_safe b).bind fun _ => .ok _
  · exact (Safe.get (by omega)).bind fun _ => (Safe.get (by omega)).bind fun _ =>
      (Safe.get (by omega)).bind fun _ => (Safe.get (by omega)).bind fun _ => .ok _
  · exact .ok _
  · exact (ipv4_safe val).bind fun _ => .ok _
  · exact .ok _

/-- Every length is checked before what it is of is read. -/
theorem parseOptions_safe (buf : List UInt8) (i : Nat) (out : DhcpReply) :
    Safe (parseOptions buf i out) := by
  induction i, out using parseOptions.induct buf with
  | case1 i out hi ih₀ ih =>
    rw [parseOptions, if_pos hi]
    refine (Safe.get hi).bind fun code => ?_
    split_ifs with _ _ hlen
    · exact .ok _
    · exact ih₀
    · exact .ok _
    · refine (Safe.get (by omega)).bind fun len => ?_
      dsimp only
      split_ifs with hend
      · exact .ok _
      · exact (Safe.sub (by omega) (by omega)).bind fun _ =>
          (takeOption_safe _ _ _).bind fun out => ih hlen len hend out
  | case2 i out hi =>
    rw [parseOptions, if_neg hi]
    exact .ok _

/-! ## Replies -/

/-- A number as four bytes, the highest one first. -/
def toBeBytes (n : UInt32) : List UInt8 :=
  [UInt8.ofNat (n.toNat / 256 ^ 3), UInt8.ofNat (n.toNat / 256 ^ 2), UInt8.ofNat (n.toNat / 256),
    UInt8.ofNat n.toNat]

theorem fromBeBytes_toBeBytes (n : UInt32) :
    fromBeBytes (UInt8.ofNat (n.toNat / 256 ^ 3)) (UInt8.ofNat (n.toNat / 256 ^ 2))
      (UInt8.ofNat (n.toNat / 256)) (UInt8.ofNat n.toNat) = n := by
  have hn := n.toNat_lt
  apply UInt32.toNat_inj.1
  simp only [fromBeBytes, UInt8.toNat_ofNat', UInt32.toNat_ofNat']
  omega

theorem toBeBytes_fromBeBytes (a b c d : UInt8) :
    toBeBytes (fromBeBytes a b c d) = [a, b, c, d] := by
  have ha := a.toNat_lt
  have hb := b.toNat_lt
  have hc := c.toNat_lt
  have hd := d.toNat_lt
  have hn : (fromBeBytes a b c d).toNat =
      ((a.toNat * 256 + b.toNat) * 256 + c.toNat) * 256 + d.toNat :=
    UInt32.toNat_ofNat_of_lt' (by rw [UInt32.size]; omega)
  have hofNat : ∀ {m : Nat} {x : UInt8}, m % 256 = x.toNat → UInt8.ofNat m = x := fun h =>
    UInt8.toNat_inj.1 ((UInt8.toNat_ofNat').trans h)
  unfold toBeBytes
  rw [hn, hofNat (x := a), hofNat (x := b), hofNat (x := c), hofNat (x := d)] <;> omega

def octets (ip : Ipv4) : List UInt8 := [ip.a, ip.b, ip.c, ip.d]

theorem ipv4_octets (ip : Ipv4) : ipv4 (octets ip) = .ok (some ip) := rfl

theorem ipv4_of_length {b : List UInt8} (h : b.length ≠ 4) : ipv4 b = .ok none := if_neg h

/-- The header of a packet, and its cookie. -/
structure Header where
  op : UInt8
  link : List UInt8
  xid : UInt32
  times : List UInt8
  yiaddr : Ipv4
  rest : List UInt8
  cookie : List UInt8
  length_link : link.length = 3
  length_times : times.length = 8
  length_rest : rest.length = 216
  length_cookie : cookie.length = 4

namespace Header

variable (h : Header)

def bytes : List UInt8 :=
  h.op :: (h.link ++ (toBeBytes h.xid ++ (h.times ++ (octets h.yiaddr ++ (h.rest ++ h.cookie)))))

theorem length_bytes : h.bytes.length = 240 := by
  simp only [bytes, List.length_cons, List.length_append, h.length_link, h.length_times,
    h.length_rest, h.length_cookie, toBeBytes, octets, List.length_nil]

/-- A header of a reply to a request. -/
def IsReply (xid : UInt32) : Prop := h.op = opReply ∧ h.xid = xid ∧ h.cookie = magicCookie

instance {xid : UInt32} : Decidable (h.IsReply xid) :=
  inferInstanceAs (Decidable (_ ∧ _ ∧ _))

end Header

/-- A packet that is long enough begins with a header. -/
theorem exists_header (h : 240 ≤ buf.length) : ∃ (hd : Header) (opts : List UInt8),
    buf = hd.bytes ++ opts := by
  have hsplit : ∀ (n : Nat) (l : List UInt8), n ≤ l.length →
      ∃ l₁ l₂, l = l₁ ++ l₂ ∧ l₁.length = n ∧ l₂.length = l.length - n := fun n l hn =>
    ⟨l.take n, l.drop n, (List.take_append_drop n l).symm, List.length_take_of_le hn,
      List.length_drop⟩
  obtain ⟨op, b₁, rfl, hop, h₁⟩ := hsplit 1 buf (by omega)
  obtain ⟨link, b₂, rfl, hlink, h₂⟩ := hsplit 3 b₁ (by omega)
  obtain ⟨xid, b₃, rfl, hxid, h₃⟩ := hsplit 4 b₂ (by omega)
  obtain ⟨times, b₄, rfl, htimes, h₄⟩ := hsplit 8 b₃ (by omega)
  obtain ⟨yiaddr, b₅, rfl, hyiaddr, h₅⟩ := hsplit 4 b₄ (by omega)
  obtain ⟨rest, b₆, rfl, hrest, h₆⟩ := hsplit 216 b₅ (by omega)
  obtain ⟨cookie, opts, rfl, hcookie, -⟩ := hsplit 4 b₆ (by omega)
  obtain ⟨op, rfl⟩ := List.length_eq_one_iff.1 hop
  obtain ⟨x₀, x₁, x₂, x₃, rfl⟩ := List.length_eq_four.1 hxid
  obtain ⟨y₀, y₁, y₂, y₃, rfl⟩ := List.length_eq_four.1 hyiaddr
  refine ⟨⟨op, link, fromBeBytes x₀ x₁ x₂ x₃, times, ⟨y₀, y₁, y₂, y₃⟩, rest, cookie, hlink, htimes,
    hrest, hcookie⟩, opts, ?_⟩
  simp only [Header.bytes, toBeBytes_fromBeBytes, octets, List.cons_append, List.nil_append,
    List.append_assoc]

/-- A packet that is long enough is read by its header and its options. -/
theorem parseReply_of_header (hd : Header) (opts : List UInt8) (xid : UInt32) :
    parseReply (hd.bytes ++ opts) xid =
      if hd.IsReply xid then do
        let out ← parseOptions (hd.bytes ++ opts) 240 { yiaddr := hd.yiaddr }
        if out.msgType = 0 then return none
        return some out
      else .ok none := by
  have hlen : ¬ (hd.bytes ++ opts).length < 240 := by
    rw [List.length_append, hd.length_bytes]
    omega
  have hop : get (hd.bytes ++ opts) 0 = .ok hd.op := rfl
  have hget : ∀ (i : Nat) {l l' : List UInt8} {a : UInt8}, toBeBytes hd.xid = l ++ a :: l' →
      4 + l.length = i → get (hd.bytes ++ opts) i = .ok a := by
    intro i l l' a hl hi
    refine get_append (p := hd.op :: (hd.link ++ l)) (q := l' ++ (hd.times ++
      (octets hd.yiaddr ++ (hd.rest ++ (hd.cookie ++ opts))))) (by simp [Header.bytes, hl]) ?_
    rw [List.length_cons, List.length_append, hd.length_link, ← hi, Nat.add_right_comm]
  have hyiaddr : sub (hd.bytes ++ opts) 16 20 = .ok (octets hd.yiaddr) :=
    sub_append (p := hd.op :: (hd.link ++ (toBeBytes hd.xid ++ hd.times)))
      (q := hd.rest ++ (hd.cookie ++ opts)) (by simp [Header.bytes])
      (by simp [hd.length_link, hd.length_times, toBeBytes]) rfl
  have hcookie : sub (hd.bytes ++ opts) 236 240 = .ok hd.cookie :=
    sub_append (q := opts) (p := hd.op :: (hd.link ++ (toBeBytes hd.xid ++
      (hd.times ++ (octets hd.yiaddr ++ hd.rest))))) (by simp [Header.bytes])
      (by simp [hd.length_link, hd.length_times, hd.length_rest, toBeBytes, octets])
      (by rw [hd.length_cookie])
  have hxid := fromBeBytes_toBeBytes hd.xid
  unfold parseReply
  rw [if_neg hlen, hop, hget 4 (l := []) rfl rfl, hget 5 (l := [_]) rfl rfl,
    hget 6 (l := [_, _]) rfl rfl, hget 7 (l := [_, _, _]) rfl rfl, hyiaddr]
  simp only [ok_bind, hxid, ipv4_octets, hcookie]
  by_cases h₁ : hd.op = opReply
  · by_cases h₂ : hd.xid = xid
    · by_cases h₃ : hd.cookie = magicCookie
      · rw [if_neg (not_not_intro h₁), if_neg (not_not_intro h₂), if_neg (not_not_intro h₃),
          if_pos (show hd.IsReply xid from ⟨h₁, h₂, h₃⟩)]
      · rw [if_neg (not_not_intro h₁), if_neg (not_not_intro h₂), if_pos h₃,
          if_neg fun h : hd.IsReply xid => h₃ h.2.2]
        rfl
    · rw [if_neg (not_not_intro h₁), if_pos h₂, if_neg fun h : hd.IsReply xid => h₂ h.2.1]
      rfl
  · rw [if_pos h₁, if_neg fun h : hd.IsReply xid => h₁ h.1]
    rfl

/-! ## Options -/

/-- A field of the options. -/
inductive Field
  | pad
  | unknown (code : UInt8) (val : List UInt8)
      (fresh : code ∉ [0, optSubnet, optRouter, optDns, optLease, optMsgType, optServerId, optEnd])
      (short : val.length < 256)
  | msgType (t : UInt8) (ne_zero : t ≠ 0)
  | subnet (mask : Ipv4)
  | router (first : Ipv4) (more : List Ipv4) (short : more.length < 63)
  | dns (first : Ipv4) (more : List Ipv4) (short : more.length < 63)
  | lease (secs : UInt32)
  | serverId (ip : Ipv4)

namespace Field

def code : Field → UInt8
  | pad => 0
  | unknown code .. => code
  | msgType .. => optMsgType
  | subnet _ => optSubnet
  | router .. => optRouter
  | dns .. => optDns
  | lease _ => optLease
  | serverId _ => optServerId

def val : Field → List UInt8
  | pad => []
  | unknown _ val .. => val
  | msgType t _ => [t]
  | subnet mask => octets mask
  | router first more _ => (first :: more).flatMap octets
  | dns first more _ => (first :: more).flatMap octets
  | lease secs => toBeBytes secs
  | serverId ip => octets ip

def bytes : Field → List UInt8
  | pad => [0]
  | f => f.code :: UInt8.ofNat f.val.length :: f.val

/-! What a field says. -/

def msgType? : Field → Option UInt8
  | msgType t _ => some t
  | _ => none

def subnet? : Field → Option Ipv4
  | subnet mask => some mask
  | _ => none

/-- The addresses of routers, the one to be preferred first. -/
def routers? : Field → Option (Ipv4 × List Ipv4)
  | router first more _ => some (first, more)
  | _ => none

def dns? : Field → Option (List Ipv4)
  | dns first more _ => some (first :: more)
  | _ => none

def lease? : Field → Option UInt32
  | lease secs => some secs
  | _ => none

def serverId? : Field → Option Ipv4
  | serverId ip => some ip
  | _ => none

/-- Two fields that may both be there. -/
def Apart (f g : Field) : Prop :=
  f.code = g.code → f.code ∉ [optSubnet, optRouter, optDns, optLease, optMsgType, optServerId]

/-- What the client makes of a field. -/
def apply (out : DhcpReply) : Field → DhcpReply
  | pad => out
  | unknown .. => out
  | msgType t _ => { out with msgType := t }
  | subnet mask => { out with subnet := some mask }
  | router first more _ => { out with router := if more = [] then some first else none }
  | dns first more _ => { out with dns := first :: more }
  | lease secs => { out with leaseSecs := secs }
  | serverId ip => { out with serverId := some ip }

variable {f g : Field}

theorem length_flatMap_octets (ips : List Ipv4) : (ips.flatMap octets).length = 4 * ips.length := by
  induction ips with
  | nil => rfl
  | cons ip ips ih =>
    rw [List.flatMap_cons, List.length_append, ih, List.length_cons, octets]
    simp only [List.length_cons, List.length_nil]
    omega

theorem chunks_flatMap_octets (ips : List Ipv4) :
    chunks (ips.flatMap octets) = ips.map octets := by
  induction ips with
  | nil => rfl
  | cons ip ips ih =>
    rw [List.flatMap_cons, List.map_cons, ← ih]
    rfl

theorem mapM_ipv4 (ips : List Ipv4) :
    (ips.map octets).mapM ipv4 = (.ok (ips.map some) : Checked _) := by
  induction ips with
  | nil => rfl
  | cons ip ips ih =>
    rw [List.map_cons, List.mapM_cons, ipv4_octets, ih]
    rfl

theorem length_val (f : Field) : f.val.length < 256 := by
  cases f with
  | unknown code val fresh short => exact short
  | router first more short =>
    rw [val, length_flatMap_octets, List.length_cons]
    omega
  | dns first more short =>
    rw [val, length_flatMap_octets, List.length_cons]
    omega
  | _ => exact Nat.le_of_ble_eq_true rfl

theorem ipv4_flatMap_octets (first : Ipv4) (more : List Ipv4) :
    ipv4 ((first :: more).flatMap octets) = .ok (if more = [] then some first else none) := by
  cases more with
  | nil => rfl
  | cons ip more =>
    rw [if_neg (List.cons_ne_nil _ _)]
    refine ipv4_of_length ?_
    rw [length_flatMap_octets, List.length_cons, List.length_cons]
    omega

/-- Every field is taken as `apply` has it. -/
theorem takeOption_val (f : Field) (out : DhcpReply) :
    takeOption f.code f.val out = .ok (f.apply out) := by
  cases f with
  | pad => rfl
  | unknown code val fresh short =>
    simp only [List.mem_cons, List.not_mem_nil, or_false, not_or] at fresh
    obtain ⟨-, h₁, h₂, h₃, h₄, h₅, h₆, -⟩ := fresh
    change takeOption code val out = .ok out
    rw [takeOption, if_neg h₅, if_neg h₁, if_neg h₂, if_neg h₃, if_neg h₄, if_neg h₆]
    rfl
  | msgType t ne_zero => rfl
  | subnet mask => rfl
  | router first more short =>
    change (do return { out with router := ← ipv4 ((first :: more).flatMap octets) }) = _
    rw [ipv4_flatMap_octets]
    rfl
  | dns first more short =>
    change (do
      let ips ← (chunks ((first :: more).flatMap octets)).mapM ipv4
      return { out with dns := ips.reduceOption }) = _
    rw [chunks_flatMap_octets, mapM_ipv4, ok_bind]
    have hsome : ((first :: more).map some).reduceOption = first :: more :=
      (List.filterMap_map ..).trans List.filterMap_some
    exact congrArg (fun ips => Except.ok { out with dns := ips }) hsome
  | lease secs =>
    have hsecs := fromBeBytes_toBeBytes secs
    change Except.ok { out with leaseSecs := fromBeBytes _ _ _ _ } = _
    rw [hsecs]
    rfl
  | serverId ip => rfl

theorem code_ne_end (f : Field) : f.code ≠ optEnd := by
  cases f with
  | unknown code val fresh short =>
    rintro rfl
    exact fresh (by decide)
  | _ =>
    simp only [code]
    decide

theorem code_ne_zero (h : f ≠ pad) : f.code ≠ 0 := by
  cases f with
  | pad => exact absurd rfl h
  | unknown code val fresh short =>
    rintro rfl
    exact fresh (by decide)
  | _ =>
    simp only [code]
    decide

theorem bytes_eq (h : f ≠ pad) : f.bytes = f.code :: UInt8.ofNat f.val.length :: f.val := by
  cases f with
  | pad => exact absurd rfl h
  | _ => rfl

end Field

/-! ## What is read of the options -/

/-- A field is read, and the reader is behind it. -/
theorem parseOptions_field (f : Field) (hb : buf = p ++ (f.bytes ++ tail)) :
    parseOptions buf p.length out = parseOptions buf (p.length + f.bytes.length) (f.apply out) := by
  by_cases hpad : f = .pad
  · subst hpad
    have hget : get buf p.length = .ok 0 := get_append (p := p) (q := tail) hb rfl
    have hlt : p.length < buf.length := by
      rw [hb, List.length_append, List.length_append]
      exact Nat.lt_add_of_pos_right (Nat.lt_of_lt_of_le (by decide) (Nat.le_add_right 1 _))
    rw [parseOptions, if_pos hlt, hget]
    rfl
  · have hbytes := f.bytes_eq hpad
    have hlen : (UInt8.ofNat f.val.length).toNat = f.val.length :=
      UInt8.toNat_ofNat_of_lt' f.length_val
    rw [hbytes] at hb
    have hsize : buf.length = p.length + 2 + f.val.length + tail.length := by
      rw [hb]
      simp only [List.length_append, List.length_cons]
      omega
    have hcode : get buf p.length = .ok f.code := get_append (p := p) hb rfl
    have hlength : get buf (p.length + 1) = .ok (UInt8.ofNat f.val.length) :=
      get_append (p := p ++ [f.code]) (q := f.val ++ tail) (by simp [hb])
        (by rw [List.length_append, List.length_singleton])
    have hval : sub buf (p.length + 2) (p.length + 2 + f.val.length) = .ok f.val :=
      sub_append (p := p ++ [f.code, UInt8.ofNat f.val.length]) (q := tail) (by simp [hb])
        (by rw [List.length_append]; rfl) rfl
    rw [parseOptions, if_pos (by omega), hcode, ok_bind, if_neg f.code_ne_end,
      if_neg (f.code_ne_zero hpad), if_neg (by omega), hlength]
    simp only [ok_bind, hlen]
    rw [if_neg (by omega), hval, ok_bind, f.takeOption_val, ok_bind, hbytes]
    congr 1
    simp only [List.length_cons]
    omega

/-- The options take effect in their order. -/
theorem parseOptions_fields (fields : List Field)
    (hb : buf = p ++ (fields.flatMap (·.bytes) ++ tail))
    (ended : tail = [] ∨ tail.head? = some optEnd) :
    parseOptions buf p.length out = .ok (fields.foldl Field.apply out) := by
  induction fields generalizing p out with
  | nil =>
    rw [List.flatMap_nil, List.nil_append] at hb
    rcases ended with rfl | hend
    · rw [parseOptions, if_neg (by rw [hb, List.append_nil]; exact Nat.lt_irrefl _)]
      rfl
    · obtain ⟨tail, rfl⟩ : ∃ t, tail = optEnd :: t := List.head?_eq_some_iff.1 hend
      rw [parseOptions, if_pos, get_append (p := p) hb rfl]
      · rfl
      · rw [hb, List.length_append]
        exact Nat.lt_add_of_pos_right (Nat.succ_pos _)
  | cons f fields ih =>
    rw [List.flatMap_cons, List.append_assoc] at hb
    rw [parseOptions_field f hb, ← List.length_append, ih (by rw [hb, List.append_assoc])]
    rfl

/-! ## What a reply means -/

/-- A reply of a server. -/
structure Reply where
  header : Header
  op : header.op = opReply
  cookie : header.cookie = magicCookie
  fields : List Field
  once : fields.Pairwise Field.Apart
  tail : List UInt8
  ended : tail = [] ∨ tail.head? = some optEnd

namespace Reply

variable (r : Reply)

def wire : List UInt8 := r.header.bytes ++ (r.fields.flatMap (·.bytes) ++ r.tail)

/-- What the fields say: of the routers the first one, and nothing without a type. -/
def expected : Option DhcpReply :=
  (r.fields.findSome? (·.msgType?)).map fun t =>
    { msgType := t
      yiaddr := r.header.yiaddr
      subnet := r.fields.findSome? (·.subnet?)
      router := (r.fields.findSome? (·.routers?)).map Prod.fst
      dns := (r.fields.findSome? (·.dns?)).getD []
      leaseSecs := (r.fields.findSome? (·.lease?)).getD 0
      serverId := r.fields.findSome? (·.serverId?) }

/-- A reply with a type has no more than one router. -/
def OneRouter : Prop :=
  (r.fields.findSome? (·.msgType?)).isSome →
    ∀ ips ∈ r.fields.findSome? (·.routers?), ips.2 = []

/-- What is set by at most one of the fields is what that one sets. -/
theorem foldl_apply {β γ : Type} {g : DhcpReply → γ} {s : Field → Option β} {k : β → γ}
    {fields : List Field} (hg : ∀ out f, g (Field.apply out f) = (s f).elim (g out) k)
    (once : fields.Pairwise fun f f' => s f = none ∨ s f' = none) (out : DhcpReply) :
    g (fields.foldl Field.apply out) = (fields.findSome? s).elim (g out) k := by
  induction fields generalizing out with
  | nil => rfl
  | cons f fields ih =>
    obtain ⟨hf, hfields⟩ := List.pairwise_cons.1 once
    rw [List.foldl_cons, ih hfields, hg, List.findSome?_cons]
    cases hs : s f with
    | none => rfl
    | some b =>
      -- Nothing behind the field sets it again.
      have hnone : fields.findSome? s = none := List.findSome?_eq_none_iff.2 fun f' hf' =>
        (hf f' hf').resolve_left (by rw [hs]; exact Option.some_ne_none b)
      rw [hnone]
      rfl

variable {r}

/-- What only fields of one code say is said at most once. -/
theorem said_once {β : Type} {s : Field → Option β} {c : UInt8}
    (hs : ∀ f, s f = none ∨ f.code = c)
    (hc : c ∈ [optSubnet, optRouter, optDns, optLease, optMsgType, optServerId]) :
    r.fields.Pairwise fun f f' => s f = none ∨ s f' = none := by
  refine r.once.imp fun {f f'} hapart => ?_
  by_contra! hne
  have hf := (hs f).resolve_left hne.1
  exact hapart (hf.trans ((hs f').resolve_left hne.2).symm) (hf ▸ hc)

/-- What only fields of one code say is what the client makes of it. -/
theorem foldl_said {β γ : Type} {g : DhcpReply → γ} {s : Field → Option β} {k : β → γ} (c : UInt8)
    (hg : ∀ out f, g (Field.apply out f) = (s f).elim (g out) k)
    (hs : ∀ f, s f = none ∨ f.code = c)
    (hc : c ∈ [optSubnet, optRouter, optDns, optLease, optMsgType, optServerId])
    {out : DhcpReply} :
    g (r.fields.foldl Field.apply out) = (r.fields.findSome? s).elim (g out) k :=
  foldl_apply hg (said_once hs hc) out

/-- What the client makes of the fields. -/
theorem foldl_fields :
    r.fields.foldl Field.apply { yiaddr := r.header.yiaddr } =
      { msgType := (r.fields.findSome? (·.msgType?)).elim 0 id
        yiaddr := r.header.yiaddr
        subnet := (r.fields.findSome? (·.subnet?)).elim none some
        router := (r.fields.findSome? (·.routers?)).elim none fun ips =>
          if ips.2 = [] then some ips.1 else none
        dns := (r.fields.findSome? (·.dns?)).elim [] id
        leaseSecs := (r.fields.findSome? (·.lease?)).elim 0 id
        serverId := (r.fields.findSome? (·.serverId?)).elim none some } := by
  apply DhcpReply.ext
  · exact foldl_said optMsgType (fun _ f => by cases f <;> rfl)
      (fun f => by cases f <;> first | exact .inl rfl | exact .inr rfl) (by decide)
  · have hyiaddr : ∀ (fields : List Field) (out : DhcpReply),
        (fields.foldl Field.apply out).yiaddr = out.yiaddr := by
      intro fields
      induction fields with
      | nil => exact fun out => rfl
      | cons f fields ih =>
        intro out
        rw [List.foldl_cons, ih]
        cases f <;> rfl
    exact hyiaddr _ _
  · exact foldl_said optSubnet (fun _ f => by cases f <;> rfl)
      (fun f => by cases f <;> first | exact .inl rfl | exact .inr rfl) (by decide)
  · exact foldl_said optRouter (fun _ f => by cases f <;> rfl)
      (fun f => by cases f <;> first | exact .inl rfl | exact .inr rfl) (by decide)
  · exact foldl_said optDns (fun _ f => by cases f <;> rfl)
      (fun f => by cases f <;> first | exact .inl rfl | exact .inr rfl) (by decide)
  · exact foldl_said optLease (fun _ f => by cases f <;> rfl)
      (fun f => by cases f <;> first | exact .inl rfl | exact .inr rfl) (by decide)
  · exact foldl_said optServerId (fun _ f => by cases f <;> rfl)
      (fun f => by cases f <;> first | exact .inl rfl | exact .inr rfl) (by decide)

theorem msgType_ne_zero {t : UInt8} (h : r.fields.findSome? (·.msgType?) = some t) : t ≠ 0 := by
  obtain ⟨f, -, hf⟩ := List.exists_of_findSome?_eq_some h
  cases f with
  | msgType t' ne_zero =>
    cases hf
    exact ne_zero
  | _ => cases hf

/-- A reply is read field by field. -/
theorem parseReply_wire (r : Reply) :
    parseReply r.wire r.header.xid =
      .ok ((r.fields.findSome? (·.msgType?)).map fun _ =>
        r.fields.foldl Field.apply { yiaddr := r.header.yiaddr }) := by
  have hfields : parseOptions r.wire 240 { yiaddr := r.header.yiaddr } =
      .ok (r.fields.foldl Field.apply { yiaddr := r.header.yiaddr }) := by
    rw [← r.header.length_bytes]
    exact parseOptions_fields r.fields rfl r.ended
  have hreply : r.header.IsReply r.header.xid := ⟨r.op, rfl, r.cookie⟩
  rw [wire, parseReply_of_header, if_pos hreply]
  rw [wire] at hfields
  rw [hfields, ok_bind]
  have htype : (r.fields.foldl Field.apply { yiaddr := r.header.yiaddr }).msgType =
      (r.fields.findSome? (·.msgType?)).elim 0 id := by rw [foldl_fields]
  cases hm : r.fields.findSome? (·.msgType?) with
  | none =>
    rw [hm, Option.elim_none] at htype
    rw [if_pos htype]
    rfl
  | some t =>
    rw [hm, Option.elim_some, id_eq] at htype
    rw [if_neg (htype.trans_ne (msgType_ne_zero hm))]
    rfl

/-- A reply is read as it is meant if and only if it has no more than one router. -/
theorem parseReply_expected (r : Reply) :
    parseReply r.wire r.header.xid = .ok r.expected ↔ r.OneRouter := by
  rw [parseReply_wire, foldl_fields, expected, OneRouter]
  cases r.fields.findSome? (·.msgType?) with
  | none => exact iff_of_true rfl fun h => absurd h Bool.false_ne_true
  | some t =>
    have helim : ∀ {β : Type} (o : Option β), o.elim none some = o := fun o => by cases o <;> rfl
    have hgetD : ∀ {β : Type} (o : Option β) (b : β), o.elim b id = o.getD b := fun o b => by
      cases o <;> rfl
    simp only [Option.map_some, Except.ok.injEq, Option.some.injEq, DhcpReply.mk.injEq, helim,
      hgetD, Option.getD_some, true_and, and_true, Option.isSome_some, forall_const]
    cases r.fields.findSome? (·.routers?) with
    | none => exact iff_of_true rfl fun _ h => absurd h (Option.not_mem_none _)
    | some ips =>
      simp only [Option.elim_some, Option.map_some, Option.mem_some_iff, forall_eq']
      by_cases hone : ips.2 = []
      · exact iff_of_true (if_pos hone) hone
      · rw [if_neg hone]
        exact iff_of_false (Option.some_ne_none _).symm hone

/-- An acknowledgement of a network with two routers. -/
def twoRouters : Reply where
  header :=
    { op := opReply
      link := [1, 6, 0]
      xid := 0xdeadbeef
      times := List.replicate 8 0
      yiaddr := ⟨192, 168, 1, 50⟩
      rest := List.replicate 216 0
      cookie := magicCookie
      length_link := rfl
      length_times := rfl
      length_rest := List.length_replicate
      length_cookie := rfl }
  op := rfl
  cookie := rfl
  fields := [.msgType 5 (by decide), .router ⟨192, 168, 1, 1⟩ [⟨192, 168, 1, 2⟩] (by decide)]
  once := by
    refine List.pairwise_pair.2 fun h => ?_
    exact absurd h (by decide)
  tail := [optEnd]
  ended := .inr rfl

/-- Of two routers none is taken. -/
theorem parseReply_twoRouters :
    parseReply twoRouters.wire twoRouters.header.xid ≠ .ok twoRouters.expected := by
  rw [Ne, parseReply_expected]
  intro h
  exact absurd (h rfl _ rfl) (List.cons_ne_nil _ _)

end Reply

/-- A reply is read as it is meant if and only if it has no more than one router; no packet is read
    outside of it, and none is read as a reply that is not one to the client. -/
theorem parseReply_spec (r : Reply) (buf : List UInt8) (xid : UInt32) :
    (parseReply r.wire r.header.xid = .ok r.expected ↔ r.OneRouter) ∧
      ∃ res, parseReply buf xid = .ok res ∧
        (res.isSome → ∃ (hd : Header) (opts : List UInt8), buf = hd.bytes ++ opts ∧
          hd.IsReply xid) := by
  refine ⟨r.parseReply_expected, ?_⟩
  by_cases hlen : buf.length < 240
  · exact ⟨none, if_pos hlen, fun h => absurd h Bool.false_ne_true⟩
  obtain ⟨hd, opts, rfl⟩ := exists_header (Nat.not_lt.1 hlen)
  rw [parseReply_of_header]
  by_cases hreply : hd.IsReply xid
  · obtain ⟨out, hout⟩ := parseOptions_safe (hd.bytes ++ opts) 240 { yiaddr := hd.yiaddr }
    rw [if_pos hreply, hout, ok_bind]
    by_cases ht : out.msgType = 0
    · exact ⟨none, if_pos ht, fun _ => ⟨hd, opts, rfl, hreply⟩⟩
    · exact ⟨some out, if_neg ht, fun _ => ⟨hd, opts, rfl, hreply⟩⟩
  · exact ⟨none, if_neg hreply, fun h => absurd h Bool.false_ne_true⟩

end Wandr.Dhcp
