import Mathlib.Data.List.TakeWhile
import CexAggregator.Url

/-!
# Writing and reading endpoint addresses

What is written from a scheme, a host, a port and a target is read back part by part,
wherever colons and brackets turn up in the literal, the port or the target.
-/

namespace CexAggregator

/-- A host as it is named; an IPv6-style literal is written in brackets. -/
structure Host where
  text : Bytes
  bracketed : Bool
  nonempty : text ≠ []
  plain : ∀ c ∈ text, c ≠ slash ∧ c ≠ openBracket ∧ c ≠ closeBracket
  noColon : bracketed = false → ∀ c ∈ text, c ≠ colon

def Host.written (host : Host) : Bytes :=
  if host.bracketed then openBracket :: (host.text ++ [closeBracket]) else host.text

structure Address where
  scheme : Scheme
  host : Host
  port : Option Bytes
  target : Bytes
  known : scheme ∈ kSchemes
  portNonempty : port ≠ some []
  portPlain : ∀ c ∈ port.getD [], c ≠ slash ∧ c ≠ openBracket ∧ c ≠ closeBracket
  rooted : target = [] ∨ target.head? = some slash

namespace Address
variable (a : Address)

def portText : Bytes := a.port.elim [] fun port => colon :: port

def authority : Bytes := a.host.written ++ a.portText

def text : Bytes := utf8 a.scheme.lead ++ (a.authority ++ a.target)

def url : Url where
  secure := a.scheme.secure
  scheme := a.scheme.name
  host := a.host.text
  port := a.port.getD (utf8 a.scheme.defaultPort)
  target := if a.target = [] then utf8 "/" else a.target

end Address

section Separator
variable {sep : UInt8} {front back : Bytes}

theorem takeWhile_separator (hfront : ∀ c ∈ front, c ≠ sep)
    (hback : back = [] ∨ back.head? = some sep) :
    (front ++ back).takeWhile (· ≠ sep) = front ∧ (front ++ back).dropWhile (· ≠ sep) = back := by
  have hkeep : ∀ c ∈ front, decide (c ≠ sep) = true := by
    intro c hc
    exact decide_eq_true (hfront c hc)
  have hstop : back.takeWhile (· ≠ sep) = [] ∧ back.dropWhile (· ≠ sep) = back := by
    cases back with
    | nil => exact ⟨rfl, rfl⟩
    | cons c back =>
      obtain h | h := hback
      · cases h
      · obtain rfl := Option.some.inj h
        simp
  rw [List.takeWhile_append_of_pos hkeep, List.dropWhile_append_of_pos hkeep, hstop.1, hstop.2,
    List.append_nil]
  exact ⟨rfl, rfl⟩

theorem splitBrackets_eq (authority : Bytes) {rest : Bytes}
    (h : authority.reverse.takeWhile (· ≠ closeBracket) = rest.reverse) :
    splitBrackets authority = (authority.take (authority.length - rest.length), rest) := by
  have hrest : (authority.reverse.takeWhile (· ≠ closeBracket)).reverse = rest := by
    rw [h, List.reverse_reverse]
  simp only [splitBrackets, hrest]

theorem splitBrackets_of_plain (hback : ∀ c ∈ back, c ≠ closeBracket) :
    splitBrackets back = ([], back) := by
  have hall : back.reverse.takeWhile (· ≠ closeBracket) = back.reverse := by
    refine List.takeWhile_eq_self_iff.mpr ?_
    intro c hc
    exact decide_eq_true (hback c (List.mem_reverse.mp hc))
  rw [splitBrackets_eq back hall, Nat.sub_self, List.take_zero]

theorem splitBrackets_append (hback : ∀ c ∈ back, c ≠ closeBracket) :
    splitBrackets (front ++ [closeBracket] ++ back) = (front ++ [closeBracket], back) := by
  have hplain : ∀ c ∈ back.reverse, c ≠ closeBracket :=
    fun c hc => hback c (List.mem_reverse.mp hc)
  have hseparated : closeBracket :: front.reverse = [] ∨
      (closeBracket :: front.reverse).head? = some closeBracket := Or.inr rfl
  have hstop := takeWhile_separator hplain hseparated
  have hreverse : (front ++ [closeBracket] ++ back).reverse =
      back.reverse ++ closeBracket :: front.reverse := by
    simp
  have hlength : (front ++ [closeBracket] ++ back).length - back.length =
      (front ++ [closeBracket]).length := by
    simp only [List.length_append]
    omega
  rw [splitBrackets_eq _ (hreverse ▸ hstop.1), hlength, List.take_left]

end Separator

theorem find_scheme {scheme : Scheme} (h : scheme ∈ kSchemes) (rest : Bytes) :
    kSchemes.find? (fun candidate =>
      (utf8 candidate.lead).isPrefixOf (utf8 scheme.lead ++ rest)) = some scheme := by
  have hwss : utf8 "wss://" = [119, 115, 115, 58, 47, 47] := by decide
  have hws : utf8 "ws://" = [119, 115, 58, 47, 47] := by decide
  have hhttps : utf8 "https://" = [104, 116, 116, 112, 115, 58, 47, 47] := by decide
  have hhttp : utf8 "http://" = [104, 116, 116, 112, 58, 47, 47] := by decide
  simp only [kSchemes, List.mem_cons, List.not_mem_nil, or_false] at h
  obtain rfl | rfl | rfl | rfl := h
  · simp [kSchemes, hwss, List.isPrefixOf]
  · simp [kSchemes, hwss, hws, List.isPrefixOf]
  · simp [kSchemes, hwss, hws, hhttps, List.isPrefixOf]
  · simp [kSchemes, hwss, hws, hhttps, hhttp, List.isPrefixOf]

theorem parseAuthority_of_colon {defaultPort authority bracketed front port : Bytes}
    (hsplit : splitBrackets authority = (bracketed, front ++ colon :: port))
    (hfront : ∀ c ∈ front, c ≠ colon) (hport : port ≠ []) :
    parseAuthority defaultPort authority = some (bracketed ++ front, port) := by
  have hseparated : colon :: port = [] ∨ (colon :: port).head? = some colon := Or.inr rfl
  obtain ⟨htake, hdrop⟩ := takeWhile_separator hfront hseparated
  simp only [parseAuthority, hsplit, htake, hdrop, if_neg hport]

theorem parseAuthority_of_no_colon {defaultPort authority bracketed front : Bytes}
    (hsplit : splitBrackets authority = (bracketed, front)) (hfront : ∀ c ∈ front, c ≠ colon) :
    parseAuthority defaultPort authority = some (authority, defaultPort) := by
  have hdrop : front.dropWhile (· ≠ colon) = [] := by
    refine List.dropWhile_eq_nil_iff.mpr ?_
    intro c hc
    exact decide_eq_true (hfront c hc)
  simp only [parseAuthority, hsplit, hdrop]

theorem Host.written_ne_nil (host : Host) : host.written ≠ [] := by
  unfold Host.written
  split_ifs
  · exact List.cons_ne_nil _ _
  · exact host.nonempty

theorem Host.exists_split (host : Host) : ∃ bracketed front, host.written = bracketed ++ front ∧
    (∀ c ∈ front, c ≠ colon) ∧
    ∀ back, (∀ c ∈ back, c ≠ closeBracket) →
      splitBrackets (host.written ++ back) = (bracketed, front ++ back) := by
  unfold Host.written
  split_ifs with hbracketed
  · refine ⟨openBracket :: host.text ++ [closeBracket], [], by simp, List.forall_mem_nil _, ?_⟩
    intro back hback
    exact @splitBrackets_append (openBracket :: host.text) back hback
  · have hcolon := host.noColon (eq_false_of_ne_true hbracketed)
    refine ⟨[], host.text, rfl, hcolon, ?_⟩
    intro back hback
    refine splitBrackets_of_plain (List.forall_mem_append.mpr ⟨?_, hback⟩)
    intro c hc
    exact (host.plain c hc).2.2

theorem stripBrackets_written (host : Host) : stripBrackets host.written = host.text := by
  have hlast : (openBracket :: (host.text ++ [closeBracket])).getLast? = some closeBracket :=
    List.getLast?_concat (l := openBracket :: host.text)
  unfold Host.written stripBrackets
  split_ifs with hbracketed hstrip hstrip
  · simp
  · simp [hlast] at hstrip
  · obtain ⟨-, hopen, -⟩ := hstrip
    have hmem : openBracket ∈ host.text := List.mem_of_head? hopen
    exact ((host.plain _ hmem).2.1 rfl).elim
  · rfl

namespace Address
variable (a : Address)

theorem authority_ne_slash : ∀ c ∈ a.authority, c ≠ slash := by
  have hhost : ∀ c ∈ a.host.written, c ≠ slash := by
    unfold Host.written
    split_ifs
    · refine List.forall_mem_cons.mpr ⟨by decide, List.forall_mem_append.mpr ⟨?_, ?_⟩⟩
      · intro c hc
        exact (a.host.plain c hc).1
      · exact List.forall_mem_singleton.mpr (by decide)
    · intro c hc
      exact (a.host.plain c hc).1
  have hport : ∀ c ∈ a.portText, c ≠ slash := by
    have hplain := a.portPlain
    unfold portText
    cases hp : a.port with
    | none => exact List.forall_mem_nil _
    | some port =>
      rw [hp] at hplain
      refine List.forall_mem_cons.mpr ⟨by decide, ?_⟩
      intro c hc
      exact (hplain c hc).1
  exact List.forall_mem_append.mpr ⟨hhost, hport⟩

theorem parseAuthority_authority (defaultPort : Bytes) :
    parseAuthority defaultPort a.authority = some (a.host.written, a.port.getD defaultPort) := by
  obtain ⟨bracketed, front, hwritten, hfront, hsplit⟩ := a.host.exists_split
  have hplain := a.portPlain
  have hnonempty := a.portNonempty
  unfold authority portText
  cases hp : a.port with
  | none =>
    have hwhole := hsplit [] (List.forall_mem_nil _)
    rw [List.append_nil, List.append_nil] at hwhole
    rw [Option.elim_none, List.append_nil]
    exact parseAuthority_of_no_colon hwhole hfront
  | some port =>
    rw [hp] at hplain hnonempty
    have hclose : ∀ c ∈ colon :: port, c ≠ closeBracket := by
      refine List.forall_mem_cons.mpr ⟨by decide, ?_⟩
      intro c hc
      exact (hplain c hc).2.2
    have hport : port ≠ [] := by
      rintro rfl
      exact hnonempty rfl
    rw [Option.elim_some, parseAuthority_of_colon (hsplit _ hclose) hfront hport, hwritten]
    rfl

theorem parseUrl_text : parseUrl a.text = some a.url := by
  obtain ⟨htake, hdrop⟩ := takeWhile_separator a.authority_ne_slash a.rooted
  have hauthority : a.authority ≠ [] := by
    intro hnil
    exact a.host.written_ne_nil (List.append_eq_nil_iff.mp hnil).1
  have hstrip := stripBrackets_written a.host
  unfold parseUrl text
  rw [find_scheme a.known]
  simp only [List.drop_left, htake, hdrop, if_neg hauthority, a.parseAuthority_authority, hstrip,
    if_neg a.host.nonempty]
  rfl

/-- A literal with a port, and a target that has both a colon and a bracket of its own. -/
def loopback : Address where
  scheme := ⟨"wss://", "wss", true, "443"⟩
  host := ⟨utf8 "::1", true, by decide, by decide +kernel, by decide⟩
  port := some (utf8 "9443")
  target := utf8 "/ws/a:b]"
  known := List.mem_cons_self
  portNonempty := by decide
  portPlain := by decide +kernel
  rooted := by decide

theorem parseUrl_text_loopback :
    parseUrl (utf8 "wss://[::1]:9443/ws/a:b]") = some
      ⟨true, "wss", utf8 "::1", utf8 "9443", utf8 "/ws/a:b]"⟩ := by
  have hread := parseUrl_text loopback
  have htext : loopback.text = utf8 "wss://[::1]:9443/ws/a:b]" := by decide
  rw [htext] at hread
  exact hread

end Address

end CexAggregator
