/-
The octets in a PEM text do not depend on how it is set.

The text around the octets is free in many ways: where the base64 text is broken into lines, what
blanks stand around a line and how it ends, what lines come before the BEGIN line, and what comes
after the END line.  `Pem.Layout` is all of it.  None of it reaches the octets, and the reasons are
few.  Trimming leaves what a line holds (`Text.contents_append`), and a part of base64 text is
never trimmed itself, nor taken for a marker, as it holds neither blanks nor dashes.  So reading
comes to a walk over plain lines (`Pem.body_append`), which are passed over before the BEGIN line
and put together after it.

A line before the BEGIN line must not begin with a marker of its own.  As everywhere, the blanks
around the line do not count for that.
-/
import Keyless.Certificate.Entry
import Keyless.Proofs.Text.Base64
import Keyless.Proofs.Text.Lines

namespace Keyless

namespace Pem

variable {octets : Bytes}

/-- What ends a marker line. -/
def dashes : List Char := "-----".toList

/-- A line that begins with no marker. -/
structure IsPlain (line : List Char) : Prop where
  not_begin : ¬ beginMarker <+: line
  not_end : ¬ endMarker <+: line

/-- A way to set octets in a PEM text. -/
structure Layout (octets : Bytes) where
  /-- Anything that stands on one line. -/
  label : List Char
  /-- The lines before the BEGIN line, which are lines of any kind but marker lines. -/
  preceding : List Text.Line
  opening : Text.Line
  /-- The lines of the body. -/
  pieces : List Text.Line
  closing : Text.Line
  /-- What comes after the end of the END line; without an end, the text stops there. -/
  following : Option (List Char)
  preceding_plain : ∀ line ∈ preceding, IsPlain (Text.trim line.content)
  opening_content : opening.content = beginMarker ++ label ++ dashes
  pieces_content : pieces.flatMap Text.Line.content = Base64.encode octets
  closing_content : closing.content = endMarker ++ label ++ dashes

namespace Layout

/-- The END line, and what comes after it. -/
def ending (layout : Layout octets) : List Char :=
  match layout.following with
  | none => layout.closing.inner
  | some rest => layout.closing.text ++ rest

def text (layout : Layout octets) : List Char :=
  layout.preceding.flatMap Text.Line.text ++
    (layout.opening.text ++ (layout.pieces.flatMap Text.Line.text ++ layout.ending))

end Layout

/-! ### Lines -/

theorem trim_markerLine {marker : List Char} (dash : marker.head? = some '-') (label : List Char) :
    Text.trim (marker ++ label ++ dashes) = marker ++ label ++ dashes := by
  refine Text.trim_eq_self (fun c hc => ?_) fun c hc => ?_
  · rw [List.append_assoc, List.head?_append, dash] at hc
    rw [← Option.some.inj hc]
    rfl
  · rw [List.getLast?_append] at hc
    rw [← Option.some.inj hc]
    rfl

theorem isPlain_of_ne_dash {line : List Char} (h : ∀ c ∈ line, c ≠ '-') : IsPlain line where
  not_begin marker := h '-' (marker.subset (by decide)) rfl
  not_end marker := h '-' (marker.subset (by decide)) rfl

variable {lines rest : List (List Char)}

theorem body_append (plain : ∀ line ∈ lines, IsPlain line) (inside : Bool) :
    body inside (lines ++ rest) = (if inside then lines.flatten else []) ++ body inside rest := by
  induction lines with
  | nil => cases inside <;> rfl
  | cons line others ih =>
      obtain ⟨hline, hothers⟩ := List.forall_mem_cons.mp plain
      have hbegin := List.isPrefixOf_iff_prefix.not.mpr hline.not_begin
      have hend := List.isPrefixOf_iff_prefix.not.mpr hline.not_end
      rw [List.cons_append, body, if_neg hbegin, if_neg hend, ih hothers]
      cases inside <;> simp

theorem body_begin (label : List Char) (inside : Bool) :
    body inside ((beginMarker ++ label ++ dashes) :: rest) = body true rest := by
  have hbegin : beginMarker <+: beginMarker ++ label ++ dashes :=
    ⟨label ++ dashes, (List.append_assoc ..).symm⟩
  rw [body, if_pos (List.isPrefixOf_iff_prefix.mpr hbegin)]

theorem body_end (label : List Char) (inside : Bool) :
    body inside ((endMarker ++ label ++ dashes) :: rest) = [] := by
  have hend : endMarker <+: endMarker ++ label ++ dashes :=
    ⟨label ++ dashes, (List.append_assoc ..).symm⟩
  have hbegin : ¬ beginMarker.isPrefixOf (endMarker ++ label ++ dashes) = true := by
    rw [List.append_assoc]
    exact Bool.false_ne_true
  rw [body, if_neg hbegin, if_pos (List.isPrefixOf_iff_prefix.mpr hend)]

/-! ### Layouts -/

namespace Layout

variable (layout : Layout octets)

/-- Wherever the base64 text is broken, what a line gets of it is neither trimmed nor a marker. -/
theorem pieces_facts : ∀ line ∈ layout.pieces,
    Text.trim line.content = line.content ∧ IsPlain line.content := by
  intro line hline
  have hfacts : ∀ c ∈ line.content, Text.isBlank c = false ∧ c ≠ '-' := by
    intro c hc
    have hmem : c ∈ Base64.encode octets := by
      rw [← layout.pieces_content]
      exact List.mem_flatMap.mpr ⟨line, hline, hc⟩
    exact Base64.encode_facts hmem
  exact ⟨Text.trim_of_not_isBlank fun c hc => (hfacts c hc).1,
    isPlain_of_ne_dash fun c hc => (hfacts c hc).2⟩

theorem contents_ending : ∃ rest,
    Text.contents layout.ending = (endMarker ++ layout.label ++ dashes) :: rest := by
  have hclosing : Text.trim layout.closing.content = endMarker ++ layout.label ++ dashes := by
    rw [layout.closing_content]
    exact trim_markerLine rfl layout.label
  unfold ending
  split
  · exact ⟨[], by rw [Text.contents_inner, hclosing]⟩
  · exact ⟨_, by rw [Text.contents_append, hclosing]⟩

/-- What is read as the body of the text is the base64 text, put together. -/
theorem body_text : body false (Text.contents layout.text) = Base64.encode octets := by
  have hopening : Text.trim layout.opening.content = beginMarker ++ layout.label ++ dashes := by
    rw [layout.opening_content]
    exact trim_markerLine rfl layout.label
  have hpieces : layout.pieces.map (fun line => Text.trim line.content) =
      layout.pieces.map Text.Line.content :=
    List.map_congr_left fun line hline => (layout.pieces_facts line hline).1
  have hpreceding : ∀ line ∈ layout.preceding.map fun line => Text.trim line.content,
      IsPlain line :=
    List.forall_mem_map.mpr layout.preceding_plain
  have hplain : ∀ line ∈ layout.pieces.map Text.Line.content, IsPlain line :=
    List.forall_mem_map.mpr fun line hline => (layout.pieces_facts line hline).2
  obtain ⟨rest, hending⟩ := layout.contents_ending
  rw [text, Text.contents_flatMap, Text.contents_append, Text.contents_flatMap, hopening, hpieces,
    hending, body_append hpreceding, body_begin, body_append hplain, body_end, List.append_nil]
  exact layout.pieces_content

theorem decode_text : decode (String.ofList layout.text) = some octets := by
  have hdecode := Base64.decode_encode octets
  rw [← layout.body_text] at hdecode
  rw [decode, String.toList_ofList]
  exact hdecode

end Layout

end Pem

theorem EcdsaCertificate.ofPem_eq_ok {pem : String} {id key : Bytes} {notBefore notAfter : Time}
    (read : Pem.decode pem = some (Pem.publicKeyInfo key)) (nonempty : key ≠ [])
    (ordered : notBefore ≤ notAfter) :
    ofPem id pem notBefore notAfter = .ok { id, key, notBefore, notAfter } := by
  have hlength : ¬ (Pem.publicKeyInfo key).length ≤ Pem.publicKeyHeader.length := by
    have := List.length_pos_iff.mpr nonempty
    rw [Pem.publicKeyInfo, List.length_append]
    omega
  have hordered : ¬ notAfter < notBefore := Int.not_lt.mpr ordered
  have hkey : (Pem.publicKeyInfo key).drop Pem.publicKeyHeader.length = key := List.drop_left
  unfold ofPem
  simp only [read]
  rw [if_neg hlength, if_neg hordered, hkey]

namespace Pem

/--
**The octets in a PEM text do not depend on how it is set.**  Whatever octets are set in whatever
layout, reading gives just them.  So a key whose subject public key info is set in any layout makes
a certificate, which holds exactly the key, unless there is no key or its validity is turned round.
-/
theorem layout_irrelevant :
    (∀ (octets : Bytes) (layout : Layout octets),
        decode (String.ofList layout.text) = some octets) ∧
      ∀ (id key : Bytes) (layout : Layout (publicKeyInfo key)) (notBefore notAfter : Time),
        key ≠ [] → notBefore ≤ notAfter →
          EcdsaCertificate.ofPem id (String.ofList layout.text) notBefore notAfter =
            .ok { id, key, notBefore, notAfter } := by
  refine ⟨fun octets layout => layout.decode_text, ?_⟩
  intro id key layout notBefore notAfter nonempty ordered
  exact EcdsaCertificate.ofPem_eq_ok layout.decode_text nonempty ordered

/-- A line with nothing around it. -/
def bareLine (content : List Char) (lineEnd : Text.LineEnd) (unbroken : '\n' ∉ content) :
    Text.Line where
  before := []
  content := content
  after := []
  lineEnd := lineEnd
  before_blank := by simp
  after_blank := by simp
  unbroken := by simpa using unbroken

/-- A layout with a remark before the BEGIN line, line ends of both kinds, an empty line, an
indented one, and more text right after the END line. -/
def raggedLayout : Layout [0x30, 0x03, 0x02, 0x01, 0x05] where
  label := "TEST".toList
  preceding := [bareLine " a remark: -----BEGIN ".toList .crlf (by decide)]
  opening := bareLine (beginMarker ++ "TEST".toList ++ dashes) .lf (by decide)
  pieces := [bareLine "MAM".toList .crlf (by decide), bareLine [] .lf (by decide),
    { before := [' ', '\t'], content := "CAQU=".toList, after := [' '], lineEnd := .crlf
      before_blank := List.forall_mem_cons.mpr ⟨rfl, List.forall_mem_singleton.mpr rfl⟩
      after_blank := List.forall_mem_singleton.mpr rfl
      unbroken := by decide }]
  closing := bareLine (endMarker ++ "TEST".toList ++ dashes) .lf (by decide)
  following := some "-----BEGIN".toList
  preceding_plain := by
    rw [List.forall_mem_singleton]
    exact { not_begin := by decide, not_end := by decide }
  opening_content := rfl
  pieces_content := by decide
  closing_content := rfl

/-- The layout with the whole base64 text on one line. -/
def plainLayout (octets : Bytes) : Layout octets where
  label := []
  preceding := []
  opening := bareLine (beginMarker ++ [] ++ dashes) .lf (by decide)
  pieces := [bareLine (Base64.encode octets) .lf fun h =>
    absurd (Base64.encode_facts h).1 (by decide)]
  closing := bareLine (endMarker ++ [] ++ dashes) .lf (by decide)
  following := none
  preceding_plain := by simp
  opening_content := rfl
  pieces_content := List.flatMap_singleton _ _
  closing_content := rfl

/-- Five octets are read from the ragged layout, and a certificate for one second is made with the
key that the plain one holds. -/
theorem layout_irrelevant_raggedLayout :
    raggedLayout.text = (" a remark: -----BEGIN \r\n-----BEGIN TEST-----\nMAM\r\n\n \tCAQU= \r\n" ++
        "-----END TEST-----\n-----BEGIN").toList ∧
      decode (String.ofList raggedLayout.text) = some [0x30, 0x03, 0x02, 0x01, 0x05] ∧
      EcdsaCertificate.ofPem [1] (String.ofList (plainLayout (publicKeyInfo [4])).text)
          (.ofUInt32 10) (.ofUInt32 10) =
        .ok { id := [1], key := [4], notBefore := .ofUInt32 10, notAfter := .ofUInt32 10 } :=
  ⟨rfl, layout_irrelevant.1 _ raggedLayout,
    layout_irrelevant.2 _ _ (plainLayout (publicKeyInfo [4])) _ _ (by decide) (by decide)⟩

end Pem

end Keyless
