import Wandr.Lib.Occurrences
import Wandr.NetDaemon.Control

/-!
# The networks the framework saved

The framework keeps its networks in a document, each in a block with its name and its passphrase
between quotes, and with the characters of markup escaped. The daemon has no grammar of it: it cuts
the document at the ends of the blocks, looks for the two fields by their keys, and undoes the
escapes one after the other.

* `parseSavedCreds` is the reader, `Document` what the framework writes;
* `unescape_escape`: what is made of an escaped text;
* `parseSavedCreds_document`: the networks of a document are read back if and only if none of their
  names and passphrases has a quote, an escape or whitespace at an end.
-/

namespace Wandr.SavedCreds

open Text

/-! ## The reader -/

def unescape (s : List Char) : String :=
  let s := replace "&quot;".toList [] s
  let s := replace "&amp;".toList ['&'] s
  let s := replace "&lt;".toList ['<'] s
  let s := replace "&gt;".toList ['>'] s
  let s := replace "&apos;".toList ['\''] s
  trim (String.ofList s)

/-- The key of a field. -/
def key (name : String) : List Char := s!"name=\"{name}\">".toList

def closeString : List Char := "</string>".toList

def closeNetwork : List Char := "</Network>".toList

/-- The value of a field. -/
def field (block : List Char) (name : String) : Option String := do
  let rest ← afterFirst (key name) block
  return unescape (← before closeString rest)

/-- The network of a block, if it has one. -/
def parseBlock (block : List Char) : Option WifiCreds := do
  let ssid ← field block "SSID"
  let psk ← field block "PreSharedKey"
  if !ssid.isEmpty && !psk.isEmpty then some ⟨ssid, psk⟩ else none

def parseSavedCreds (xml : String) : List WifiCreds :=
  (splitStr closeNetwork xml.toList).filterMap parseBlock

/-! ## The document -/

/-- The escape of a character that has one. -/
def entity : Char → Option (List Char)
  | '&' => some "&amp;".toList
  | '<' => some "&lt;".toList
  | '>' => some "&gt;".toList
  | '"' => some "&quot;".toList
  | '\'' => some "&apos;".toList
  | _ => none

/-- A character, escaped if it is not one of some. -/
def escapeChar (plain : List Char) (c : Char) : List Char :=
  if c ∈ plain then [c] else (entity c).getD [c]

def escape (s : List Char) : List Char := s.flatMap (escapeChar [])

/-- A text between quotes, escaped. -/
def quoted (s : String) : List Char := escape ('"' :: (s.toList ++ ['"']))

/-- What stands between the fields. -/
def Filler (t : List Char) : Prop :=
  ¬ key "SSID" <:+: t ∧ ¬ key "PreSharedKey" <:+: t ∧ ¬ closeNetwork <:+: t

/-- A block: a network with its two fields, or one without a passphrase. -/
inductive Block
  | saved (lead mid trail : List Char) (cred : WifiCreds) (ssid_ne : cred.ssid ≠ "")
      (psk_ne : cred.psk ≠ "") (filler : ∀ t ∈ [lead, mid, trail], Filler t)
  | bare (text : List Char) (no_psk : ¬ key "PreSharedKey" <:+: text)
      (no_close : ¬ closeNetwork <:+: text)

namespace Block

def text : Block → List Char
  | saved lead mid trail cred _ _ _ =>
    lead ++ (key "SSID" ++ (quoted cred.ssid ++ (closeString ++
      (mid ++ (key "PreSharedKey" ++ (quoted cred.psk ++ (closeString ++ trail)))))))
  | bare text _ _ => text

def cred? : Block → Option WifiCreds
  | saved _ _ _ cred _ _ _ => some cred
  | bare .. => none

end Block

/-- A document: blocks, and what is behind the last one. -/
structure Document where
  blocks : List Block
  footer : List Char
  no_psk : ¬ key "PreSharedKey" <:+: footer
  no_close : ¬ closeNetwork <:+: footer

namespace Document

def text (d : Document) : String :=
  String.ofList (d.blocks.flatMap (fun b => b.text ++ closeNetwork) ++ d.footer)

def creds (d : Document) : List WifiCreds := d.blocks.filterMap (·.cred?)

end Document

/-! ## Escapes -/

theorem key_ssid : key "SSID" = ['n', 'a', 'm', 'e', '=', '"', 'S', 'S', 'I', 'D', '"', '>'] := by
  rfl

theorem key_psk : key "PreSharedKey" =
    ['n', 'a', 'm', 'e', '=', '"', 'P', 'r', 'e', 'S', 'h', 'a', 'r', 'e', 'd', 'K', 'e', 'y', '"',
      '>'] := by
  rfl

theorem closeString_eq : closeString = ['<', '/', 's', 't', 'r', 'i', 'n', 'g', '>'] := by
  rfl

theorem closeNetwork_eq : closeNetwork = ['<', '/', 'N', 'e', 't', 'w', 'o', 'r', 'k', '>'] := by
  rfl

attribute [irreducible] key closeString closeNetwork

/-- The escapes, without their first character. -/
def names : List (Char × List Char) :=
  [('&', ['a', 'm', 'p', ';']), ('<', ['l', 't', ';']), ('>', ['g', 't', ';']),
    ('"', ['q', 'u', 'o', 't', ';']), ('\'', ['a', 'p', 'o', 's', ';'])]

variable {c x : Char} {p q t cs plain : List Char}

theorem entity_eq_some (h : entity c = some q) : ∃ p, q = '&' :: p ∧ (c, p) ∈ names := by
  unfold entity at h
  split at h
  all_goals first
    | exact (Option.some_ne_none _ h.symm).elim
    | exact ⟨_, (Option.some.inj h).symm, by decide⟩

theorem entity_of_mem (h : (x, p) ∈ names) : entity x = some ('&' :: p) := by
  have hall : ∀ n ∈ names, entity n.1 = some ('&' :: n.2) := by decide
  exact hall _ h

/-- No escape begins another one: they differ in their first three characters. -/
theorem not_prefix_of_names (hx : (x, p) ∈ names) (hc : (c, q) ∈ names) (hne : c ≠ x) :
    ¬ p <+: q ++ t := by
  have hall : ∀ m ∈ names, ∀ n ∈ names, n.1 ≠ m.1 →
      2 ≤ m.2.length ∧ 2 ≤ n.2.length ∧ m.2.take 2 ≠ n.2.take 2 := by decide
  obtain ⟨hp, hq, htake⟩ := hall _ hx _ hc hne
  rintro ⟨r, hr⟩
  have h := congrArg (List.take 2) hr
  rw [List.take_append_of_le_length hp, List.take_append_of_le_length hq] at h
  exact htake h

theorem escapeChar_cases (plain : List Char) (c : Char) :
    escapeChar plain c = [c] ∧ (c ∈ plain ∨ entity c = none) ∨
      ∃ q, escapeChar plain c = '&' :: q ∧ (c, q) ∈ names ∧ c ∉ plain := by
  unfold escapeChar
  split_ifs with hplain
  · exact .inl ⟨rfl, .inl hplain⟩
  · cases he : entity c with
    | none => exact .inl ⟨rfl, .inr rfl⟩
    | some r =>
      obtain ⟨q, rfl, hq⟩ := entity_eq_some he
      exact .inr ⟨q, rfl, hq, hplain⟩

theorem escapeChar_of_mem (hx : (x, p) ∈ names) (hplain : x ∉ plain) :
    escapeChar plain x = '&' :: p := by
  rw [escapeChar, if_neg hplain, entity_of_mem hx]
  rfl

/-- Only its own escape of a character is found in what it is escaped to. -/
theorem escapeChar_clear (hx : (x, p) ∈ names) (hc : c ≠ x) (hamp : c ∈ plain → c ≠ '&') :
    Clear ('&' :: p) (escapeChar plain c) t := by
  rcases escapeChar_cases plain c with ⟨he, hplain⟩ | ⟨q, he, hq, -⟩
  · rw [he]
    refine clear_of_notMem fun hmem => ?_
    obtain rfl := List.mem_singleton.1 hmem
    rcases hplain with hplain | hnone
    · exact hamp hplain rfl
    · exact Option.some_ne_none _ hnone
  · rw [he]
    have hq' : '&' ∉ q := by
      have hall : ∀ n ∈ names, '&' ∉ n.2 := by decide
      exact hall _ hq
    refine ⟨fun h => ?_, clear_of_notMem hq'⟩
    exact not_prefix_of_names hx hq hc (List.cons_prefix_cons.1 h).2

theorem escapeChar_cons (x : Char) (plain : List Char) :
    (fun c => if c = x then [x] else escapeChar plain c) = escapeChar (x :: plain) := by
  funext c
  unfold escapeChar
  by_cases hc : c = x
  · rw [if_pos hc, if_pos (hc ▸ List.mem_cons_self), hc]
  · simp only [List.mem_cons, hc, false_or, if_false]

/-- The quotes of an escaped text go. -/
theorem replace_quote (hx : (x, p) ∈ names) :
    replace ('&' :: p) [] (escape cs) = (cs.filter (· ≠ x)).flatMap (escapeChar [x]) := by
  rw [escape, replace_flatMap (escapeChar_of_mem hx List.not_mem_nil) (List.cons_ne_nil _ _)
    fun c t hc => escapeChar_clear hx hc fun h => absurd h List.not_mem_nil]
  induction cs with
  | nil => rfl
  | cons c cs ih =>
    rw [List.flatMap_cons, ih]
    by_cases hc : c = x
    · rw [if_pos hc, List.filter_cons_of_neg (by simpa using hc)]
      rfl
    · rw [if_neg hc, List.filter_cons_of_pos (by simpa using hc), List.flatMap_cons]
      exact congrArg (· ++ _) (congrFun (escapeChar_cons x []) c ▸ (if_neg hc).symm)

/-- An ampersand comes back, when none is left but those that escapes begin with. -/
theorem replace_ampersand (hx : ('&', p) ∈ names) (hplain : '&' ∉ plain) :
    replace ('&' :: p) ['&'] (cs.flatMap (escapeChar plain)) =
      cs.flatMap (escapeChar ('&' :: plain)) := by
  rw [replace_flatMap (escapeChar_of_mem hx hplain) (List.cons_ne_nil _ _) fun c t hc =>
    escapeChar_clear hx hc fun _ => hc, escapeChar_cons]

/-- A character comes back, and the text loses what reads like its escape. -/
theorem replace_escape (hx : (x, p) ∈ names) (hplain : x ∉ plain) (hamp : '&' ∈ plain) :
    replace ('&' :: p) [x] (cs.flatMap (escapeChar plain)) =
      (replace ('&' :: p) [x] cs).flatMap (escapeChar (x :: plain)) := by
  have hall : ∀ n ∈ names, '&' ∉ n.2 ∧ n.2.all fun c => (entity c).isNone := by decide
  have hne : x ≠ '&' := by
    rintro rfl
    exact hplain hamp
  rw [replace_flatMap_ampersand (escapeChar_of_mem hx hplain) (fun c => ?_) (fun c hc => ?_)
    (hall _ hx).1 hne fun c t hc hcamp => escapeChar_clear hx hc fun _ => hcamp, escapeChar_cons]
  · rcases escapeChar_cases plain c with ⟨he, -⟩ | ⟨q, he, -⟩
    · exact .inl he
    · exact .inr (by rw [he]; rfl)
  · rcases List.mem_cons.1 hc with rfl | hc
    · exact if_pos hamp
    · have hnone := Option.isNone_iff_eq_none.1 (List.all_eq_true.1 (hall _ hx).2 c hc)
      rw [escapeChar, hnone]
      exact ite_self _

theorem flatMap_plain (h : ∀ c, c ∈ plain ∨ entity c = none) :
    cs.flatMap (escapeChar plain) = cs := by
  have hplain : ∀ c ∈ cs, escapeChar plain c = [c] := fun c _ => by
    rcases h c with hc | hc
    · exact if_pos hc
    · rw [escapeChar, hc]
      exact ite_self _
  rw [List.flatMap_congr hplain]
  exact List.flatMap_singleton' cs

/-- What is left of a text that was escaped, before its ends are trimmed. -/
def stripped (s : List Char) : List Char :=
  replace "&apos;".toList ['\''] (replace "&gt;".toList ['>'] (replace "&lt;".toList ['<']
    (s.filter (· ≠ '"'))))

/-- The quotes of a text are lost, and what reads like an escape. -/
theorem unescape_quoted (s : String) :
    unescape (quoted s) = trim (String.ofList (stripped s.toList)) := by
  have hquot : "&quot;".toList = '&' :: ['q', 'u', 'o', 't', ';'] := rfl
  have hamp : "&amp;".toList = '&' :: ['a', 'm', 'p', ';'] := rfl
  have hlt : "&lt;".toList = '&' :: ['l', 't', ';'] := rfl
  have hgt : "&gt;".toList = '&' :: ['g', 't', ';'] := rfl
  have hapos : "&apos;".toList = '&' :: ['a', 'p', 'o', 's', ';'] := rfl
  have hfilter : ('"' :: (s.toList ++ ['"'])).filter (· ≠ '"') = s.toList.filter (· ≠ '"') := by
    simp
  have hall : ∀ c, c ∈ ['\'', '>', '<', '&', '"'] ∨ entity c = none := by
    intro c
    cases he : entity c with
    | none => exact .inr rfl
    | some q =>
      obtain ⟨p, -, hp⟩ := entity_eq_some he
      have hnames : ∀ n ∈ names, n.1 ∈ ['\'', '>', '<', '&', '"'] := by decide
      exact .inl (hnames _ hp)
  rw [unescape, stripped, hquot, hamp, hlt, hgt, hapos, quoted,
    replace_quote (x := '"') (by decide), hfilter, replace_ampersand (by decide) (by decide),
    replace_escape (by decide) (by decide) (by decide),
    replace_escape (by decide) (by decide) (by decide),
    replace_escape (by decide) (by decide) (by decide), flatMap_plain hall]

/-- A text without a quote, an escape that is not undone first, and whitespace at an end. -/
def Plain (s : String) : Prop :=
  '"' ∉ s.toList ∧ ¬ "&lt;".toList <:+: s.toList ∧ ¬ "&gt;".toList <:+: s.toList ∧
    ¬ "&apos;".toList <:+: s.toList ∧ trim s = s

theorem length_trim_le (s : List Char) : (trim (String.ofList s)).toList.length ≤ s.length := by
  rw [trim, String.toList_ofList, String.toList_ofList, List.length_reverse]
  refine (List.dropWhile_sublist _).length_le.trans ?_
  rw [List.length_reverse]
  exact (List.dropWhile_sublist _).length_le

/-- A text comes back if and only if it is plain: whatever is lost is missing in the end. -/
theorem unescape_eq_self (s : String) : unescape (quoted s) = s ↔ Plain s := by
  rw [unescape_quoted]
  constructor
  · intro h
    have htrim := length_trim_le (stripped s.toList)
    rw [h, stripped] at htrim
    rw [stripped] at h
    generalize hf : s.toList.filter (· ≠ '"') = f at h htrim
    have hle : f.length ≤ s.toList.length := hf ▸ List.length_filter_le _ _
    -- No step makes the text longer, so none may make it shorter.
    have hlt : (replace "&lt;".toList ['<'] f).length ≤ f.length := length_replace_le (by decide)
    have hgt : (replace "&gt;".toList ['>'] (replace "&lt;".toList ['<'] f)).length ≤
      (replace "&lt;".toList ['<'] f).length := length_replace_le (by decide)
    have hapos : (replace "&apos;".toList ['\''] (replace "&gt;".toList ['>']
      (replace "&lt;".toList ['<'] f))).length ≤
        (replace "&gt;".toList ['>'] (replace "&lt;".toList ['<'] f)).length :=
      length_replace_le (by decide)
    have hquot : f = s.toList := by
      rw [← hf]
      exact List.Sublist.eq_of_length_le List.filter_sublist (by rw [hf]; omega)
    subst hquot
    have hnlt : ¬ "&lt;".toList <:+: s.toList := fun hi => by
      have := length_replace_lt (r := ['<']) (by decide) hi
      omega
    rw [replace_of_notInfix hnlt] at h htrim hgt hapos
    have hngt : ¬ "&gt;".toList <:+: s.toList := fun hi => by
      have := length_replace_lt (r := ['>']) (by decide) hi
      omega
    rw [replace_of_notInfix hngt] at h htrim hapos
    have hnapos : ¬ "&apos;".toList <:+: s.toList := fun hi => by
      have := length_replace_lt (r := ['\'']) (by decide) hi
      omega
    rw [replace_of_notInfix hnapos, String.ofList_toList] at h
    refine ⟨fun hq => ?_, hnlt, hngt, hnapos, h⟩
    rw [← hf] at hq
    exact absurd rfl (of_decide_eq_true (List.mem_filter.1 hq).2)
  · rintro ⟨hquot, hlt, hgt, hapos, htrim⟩
    have hfilter : s.toList.filter (· ≠ '"') = s.toList := List.filter_eq_self.2 fun c hc =>
      decide_eq_true fun he => hquot (he ▸ hc)
    rw [stripped, hfilter, replace_of_notInfix hlt, replace_of_notInfix hgt,
      replace_of_notInfix hapos, String.ofList_toList, htrim]

/-! ## Reading a document -/

/-- An escaped text has no character of markup but ampersands. -/
theorem notMem_quoted {s : String} (hc : c = '<' ∨ c = '"') : c ∉ quoted s := by
  intro h
  obtain ⟨d, -, hd⟩ := List.mem_flatMap.1 h
  have hall : ∀ n ∈ names, '<' ∉ '&' :: n.2 ∧ '"' ∉ '&' :: n.2 := by decide
  rcases escapeChar_cases [] d with ⟨he, hplain⟩ | ⟨q, he, hq, -⟩
  · rw [he] at hd
    obtain rfl := List.mem_singleton.1 hd
    rcases hplain with hplain | hnone
    · exact List.not_mem_nil hplain
    · rcases hc with rfl | rfl <;> exact Option.some_ne_none _ hnone
  · rw [he] at hd
    rcases hc with rfl | rfl
    · exact (hall _ hq).1 hd
    · exact (hall _ hq).2 hd

/-- No occurrence goes on with a key or with an end. -/
theorem clear_filler {pat r : List Char} (h : ¬ pat <:+: t)
    (hpat : pat ∈ [key "SSID", key "PreSharedKey", closeNetwork])
    (hr : r.head? = some 'n' ∨ r.head? = some '<') : Clear pat t r := by
  have htail : ∀ pat ∈ [key "SSID", key "PreSharedKey", closeNetwork],
      'n' ∉ pat.tail ∧ '<' ∉ pat.tail := by
    rw [key_ssid, key_psk, closeNetwork_eq]
    decide
  refine clear_of_notInfix h fun c hc => ?_
  rcases hr with hr | hr <;> obtain rfl := Option.some.inj (hr.symm.trans hc)
  · exact (htail pat hpat).1
  · exact (htail pat hpat).2

theorem head?_key {name : String} {r : List Char} (h : name = "SSID" ∨ name = "PreSharedKey") :
    (key name ++ r).head? = some 'n' := by
  rcases h with rfl | rfl
  · rw [key_ssid]
    rfl
  · rw [key_psk]
    rfl

theorem clear_psk_key : Clear (key "PreSharedKey") (key "SSID") t := by
  rw [key_psk, key_ssid]
  simp [Clear]

theorem clear_psk_quoted {s : String} :
    Clear (key "PreSharedKey") (quoted s) (closeString ++ t) := by
  refine clear_filler (fun h => notMem_quoted (.inr rfl) (h.subset ?_)) (by simp)
    (.inr (by rw [closeString_eq]; rfl))
  rw [key_psk]
  decide

theorem clear_psk_closeString : Clear (key "PreSharedKey") closeString t := by
  rw [key_psk, closeString_eq]
  simp [Clear]

theorem clear_network_closeString : Clear closeNetwork closeString t := by
  rw [closeNetwork_eq, closeString_eq]
  simp [Clear]

theorem clear_network_quoted {s : String} : Clear closeNetwork (quoted s) t := by
  rw [closeNetwork_eq]
  exact clear_of_notMem (notMem_quoted (.inl rfl))

/-- A value is found behind its key. -/
theorem before_quoted {s : String} :
    before closeString (quoted s ++ (closeString ++ t)) = some (quoted s) := by
  have hclear : Clear closeString (quoted s) (closeString ++ t) := by
    rw [closeString_eq]
    exact clear_of_notMem (notMem_quoted (.inl rfl))
  rw [before_clear hclear, before_occurrence (by rw [closeString_eq]; decide), Option.map_some,
    List.append_nil]

/-- What is made of a network. -/
def reread (cred : WifiCreds) : Option WifiCreds :=
  let ssid := unescape (quoted cred.ssid)
  let psk := unescape (quoted cred.psk)
  if !ssid.isEmpty && !psk.isEmpty then some ⟨ssid, psk⟩ else none

theorem field_of_afterFirst {s name : String}
    (h : afterFirst (key name) cs = some (quoted s ++ (closeString ++ t))) :
    field cs name = some (unescape (quoted s)) := by
  rw [field, h]
  change (before closeString _ >>= _) = _
  rw [before_quoted]
  rfl

theorem field_eq_none {name : String} (h : ¬ key name <:+: cs) : field cs name = none := by
  rw [field, afterFirst_eq_none h]
  rfl

theorem parseBlock_bare (h : ¬ key "PreSharedKey" <:+: cs) : parseBlock cs = none := by
  rw [parseBlock, field_eq_none h]
  cases field cs "SSID" <;> rfl

/-- A block is read as its network is. -/
theorem parseBlock_text (b : Block) : parseBlock b.text = b.cred?.bind reread := by
  cases b with
  | bare text no_psk no_close => exact parseBlock_bare no_psk
  | saved lead mid trail cred ssid_ne psk_ne filler =>
    obtain ⟨hlead, hmid, -⟩ : Filler lead ∧ Filler mid ∧ Filler trail := by simpa using filler
    have hssid : afterFirst (key "SSID") (Block.text (.saved lead mid trail cred ssid_ne psk_ne
        filler)) = some (quoted cred.ssid ++ (closeString ++ (mid ++ (key "PreSharedKey" ++
          (quoted cred.psk ++ (closeString ++ trail)))))) := by
      rw [Block.text,
        afterFirst_clear (clear_filler hlead.1 (by simp) (.inl (head?_key (.inl rfl)))),
        afterFirst_occurrence (by rw [key_ssid]; exact List.cons_ne_nil _ _)]
    have hpsk : afterFirst (key "PreSharedKey") (Block.text (.saved lead mid trail cred ssid_ne
        psk_ne filler)) = some (quoted cred.psk ++ (closeString ++ trail)) := by
      rw [Block.text,
        afterFirst_clear (clear_filler hlead.2.1 (by simp) (.inl (head?_key (.inl rfl)))),
        afterFirst_clear clear_psk_key, afterFirst_clear clear_psk_quoted,
        afterFirst_clear clear_psk_closeString,
        afterFirst_clear (clear_filler hmid.2.1 (by simp) (.inl (head?_key (.inr rfl)))),
        afterFirst_occurrence (by rw [key_psk]; exact List.cons_ne_nil _ _)]
    rw [parseBlock, field_of_afterFirst hssid, field_of_afterFirst hpsk]
    simp only [Option.bind_eq_bind, Option.bind_some, Block.cred?, reread]

/-- A block is cut off at its end. -/
theorem Block.clear_text (b : Block) : Clear closeNetwork b.text (closeNetwork ++ t) := by
  have hnetwork : ∀ {r : List Char}, (closeNetwork ++ r).head? = some '<' := by
    rw [closeNetwork_eq]
    exact rfl
  cases b with
  | bare text no_psk no_close => exact clear_filler no_close (by simp) (.inr hnetwork)
  | saved lead mid trail cred ssid_ne psk_ne filler =>
    obtain ⟨hlead, hmid, htrail⟩ : Filler lead ∧ Filler mid ∧ Filler trail := by simpa using filler
    have hkey : ∀ {name : String} {r : List Char}, name = "SSID" ∨ name = "PreSharedKey" →
        Clear closeNetwork (key name) r := by
      rintro name r (rfl | rfl)
      · rw [closeNetwork_eq, key_ssid]
        exact clear_of_notMem (by decide)
      · rw [closeNetwork_eq, key_psk]
        exact clear_of_notMem (by decide)
    rw [Block.text]
    simp only [clear_append, List.append_assoc]
    exact ⟨clear_filler hlead.2.2 (by simp) (.inl (head?_key (.inl rfl))), hkey (.inl rfl),
      clear_network_quoted, clear_network_closeString,
      clear_filler hmid.2.2 (by simp) (.inl (head?_key (.inr rfl))), hkey (.inr rfl),
      clear_network_quoted, clear_network_closeString,
      clear_filler htrail.2.2 (by simp) (.inr hnetwork)⟩

theorem splitStr_blocks (blocks : List Block) {footer : List Char}
    (h : ¬ closeNetwork <:+: footer) :
    splitStr closeNetwork (blocks.flatMap (fun b => b.text ++ closeNetwork) ++ footer) =
      blocks.map (·.text) ++ [footer] := by
  induction blocks with
  | nil =>
    have hclear : Clear closeNetwork footer [] :=
      clear_of_notInfix h fun c hc => absurd hc (Option.not_mem_none c)
    have hsplit := splitStr_clear hclear (show splitStr closeNetwork [] = [] :: [] from rfl)
    rwa [List.append_nil] at hsplit
  | cons b blocks ih =>
    have hne : closeNetwork ≠ [] := by
      rw [closeNetwork_eq]
      exact List.cons_ne_nil _ _
    have hrest : splitStr closeNetwork (closeNetwork ++
        (blocks.flatMap (fun b => b.text ++ closeNetwork) ++ footer)) =
          [] :: (blocks.map (·.text) ++ [footer]) := by rw [splitStr_occurrence hne, ih]
    rw [List.flatMap_cons, List.append_assoc, List.append_assoc, splitStr_clear b.clear_text hrest,
      List.append_nil, List.map_cons, List.cons_append]

/-- A document is read network by network. -/
theorem parseSavedCreds_text (d : Document) :
    parseSavedCreds d.text = d.creds.filterMap reread := by
  have hblocks : (d.blocks.map (·.text)).filterMap parseBlock = d.creds.filterMap reread := by
    rw [List.filterMap_map, Document.creds, List.filterMap_filterMap]
    exact List.filterMap_congr fun b _ => parseBlock_text b
  rw [parseSavedCreds, Document.text, String.toList_ofList, splitStr_blocks _ d.no_close,
    List.filterMap_append, hblocks, List.filterMap_cons_none (parseBlock_bare d.no_psk),
    List.filterMap_nil, List.append_nil]

/-- What becomes of a list is the list if and only if each of its elements stays. -/
theorem filterMap_eq_self {α : Type} {f : α → Option α} {l : List α} :
    l.filterMap f = l ↔ ∀ a ∈ l, f a = some a := by
  induction l with
  | nil => exact iff_of_true rfl fun _ h => absurd h List.not_mem_nil
  | cons a l ih =>
    rw [List.forall_mem_cons]
    cases hf : f a with
    | none =>
      rw [List.filterMap_cons_none hf]
      refine iff_of_false (fun h => ?_) fun h => Option.some_ne_none a h.1.symm
      have hle := congrArg List.length h ▸ List.length_filterMap_le f l
      exact Nat.not_succ_le_self _ hle
    | some b =>
      rw [List.filterMap_cons_some hf, List.cons.injEq, ih, Option.some.injEq]

theorem reread_eq_some {cred : WifiCreds} (hssid : cred.ssid ≠ "") (hpsk : cred.psk ≠ "") :
    reread cred = some cred ↔ Plain cred.ssid ∧ Plain cred.psk := by
  rw [← unescape_eq_self, ← unescape_eq_self, reread]
  constructor
  · intro h
    split_ifs at h
    obtain ⟨hs, hp⟩ := WifiCreds.mk.inj (Option.some.inj h)
    exact ⟨hs, hp⟩
  · rintro ⟨hs, hp⟩
    rw [hs, hp, if_pos]
    rw [Bool.and_eq_true, Bool.not_eq_true', Bool.not_eq_true', String.isEmpty_eq_false_iff,
      String.isEmpty_eq_false_iff]
    exact ⟨hssid, hpsk⟩

/-- The networks of a document are read back if and only if their names and passphrases are
    plain. -/
theorem parseSavedCreds_document (d : Document) :
    parseSavedCreds d.text = d.creds ↔ ∀ cred ∈ d.creds, Plain cred.ssid ∧ Plain cred.psk := by
  rw [parseSavedCreds_text, filterMap_eq_self]
  refine forall₂_congr fun cred hcred => ?_
  obtain ⟨b, -, hb⟩ := List.mem_filterMap.1 hcred
  cases b with
  | bare text no_psk no_close => exact absurd hb.symm (Option.some_ne_none _)
  | saved lead mid trail cred' ssid_ne psk_ne filler =>
    obtain rfl : cred' = cred := Option.some.inj hb
    exact reread_eq_some ssid_ne psk_ne

theorem filler_nil : Filler [] := by
  refine ⟨fun h => ?_, fun h => ?_, fun h => ?_⟩
  · exact absurd (List.infix_nil.1 h) (by rw [key_ssid]; exact List.cons_ne_nil _ _)
  · exact absurd (List.infix_nil.1 h) (by rw [key_psk]; exact List.cons_ne_nil _ _)
  · exact absurd (List.infix_nil.1 h) (by rw [closeNetwork_eq]; exact List.cons_ne_nil _ _)

/-- A network whose name reads like an escape. -/
def markup : Document where
  blocks := [.saved [] [] [] ⟨"a&lt;b", "secret"⟩ (by decide) (by decide) (by simp [filler_nil])]
  footer := []
  no_psk := filler_nil.2.1
  no_close := filler_nil.2.2

/-- It is read as another name. -/
theorem parseSavedCreds_markup : parseSavedCreds markup.text ≠ markup.creds := by
  decide +kernel

end Wandr.SavedCreds
