import Mathlib.Data.List.Basic
import Mathlib.Data.Nat.Notation

/-!
# Strings quoted into a statement

The lexical structure of SQL as far as quoting goes: words, single symbols, and string
literals, which end at a single quote unless another one follows it at once; two quotes in a
literal are one quote of its value.  Comments and quoted identifiers are left out.  They cannot
begin inside of a literal, and a fixed text without them lexes the same with and without them.

A `Statement` is a fixed text with strings put between quotes as they are.  Its text lexes to
the tokens of the fixed text with each string as one literal of that value exactly when no
string contains a quote (`lex_render_iff`): before the first string that does, everything is
as it should be, and the literal that then begins has another value or never ends.
-/

set_option autoImplicit false

namespace SqlLexer

/-- The single quote. -/
def quote : Char := Char.ofNat 39

inductive Token
  | word (text : List Char)
  | symbol (c : Char)
  | literal (value : List Char)
deriving DecidableEq, Repr

/-- Where the lexer is: outside of literals with the word it is reading, in a literal, or
after a quote in a literal, which ends it unless a second one follows. -/
inductive Mode
  | code (word : List Char)
  | literal (value : List Char)
  | closing (value : List Char)

def isWordChar (c : Char) : Bool := c.isAlphanum || c == '_'

def wordToken (word : List Char) : List Token := if word = [] then [] else [.word word]

/-- A character outside of literals. -/
def nextCode (word : List Char) (c : Char) : List Token × Mode :=
  if c = quote then (wordToken word, .literal [])
  else if isWordChar c then ([], .code (word ++ [c]))
  else if c.isWhitespace then (wordToken word, .code [])
  else (wordToken word ++ [.symbol c], .code [])

/-- The tokens that a character completes, and the mode after it. -/
def next : Mode → Char → List Token × Mode
  | .code word, c => nextCode word c
  | .literal value, c => if c = quote then ([], .closing value) else ([], .literal (value ++ [c]))
  | .closing value, c =>
    if c = quote then ([], .literal (value ++ [quote]))
    else (.literal value :: (nextCode [] c).1, (nextCode [] c).2)

/-- `none` is a text that ends inside of a literal. -/
def lexFrom : Mode → List Char → Option (List Token)
  | .code word, [] => some (wordToken word)
  | .literal _, [] => none
  | .closing value, [] => some [.literal value]
  | mode, c :: cs => (lexFrom (next mode c).2 cs).map ((next mode c).1 ++ ·)

def lex (text : String) : Option (List Token) := lexFrom (.code []) text.toList

example : lex "x='it''s'" =
    some [.word ['x'], .symbol '=', .literal "it's".toList] := by decide

/-! ## Fixed text -/

/-- The tokens of a text without quotes. -/
def codeTokens (text : String) : List Token := (lex text).getD []

variable {rest cs : List Char} {c : Char} {ts : List Token}

theorem next_code_of_ne (hc : c ≠ quote) (word : List Char) :
    ∃ ts word', next (.code word) c = (ts, .code word') := by
  rw [next, nextCode, if_neg hc]
  split
  · exact ⟨_, _, rfl⟩
  · split
    · exact ⟨_, _, rfl⟩
    · exact ⟨_, _, rfl⟩

/-- A text without quotes has tokens, and a quote after it ends its last word and begins a
literal. -/
theorem lexFrom_code (hcs : quote ∉ cs) (word : List Char) :
    ∃ ts, lexFrom (.code word) cs = some ts ∧ ∀ rest,
      lexFrom (.code word) (cs ++ quote :: rest) = (lexFrom (.literal []) rest).map (ts ++ ·) := by
  induction cs generalizing word with
  | nil =>
    refine ⟨wordToken word, rfl, fun rest => ?_⟩
    simp only [List.nil_append, lexFrom, next, nextCode, if_true]
  | cons c cs ih =>
    have hc : c ≠ quote := (List.ne_of_not_mem_cons hcs).symm
    obtain ⟨ts, word', hnext⟩ := next_code_of_ne hc word
    obtain ⟨us, hus, happend⟩ := ih (List.not_mem_of_not_mem_cons hcs) word'
    refine ⟨ts ++ us, ?_, fun rest => ?_⟩
    · rw [lexFrom, hnext, hus, Option.map_some]
    · rw [List.cons_append, lexFrom, hnext, happend, Option.map_map]
      congr 1
      funext vs
      exact (List.append_assoc ts us vs).symm

theorem lexFrom_codeTokens {text : String} (htext : quote ∉ text.toList) :
    lexFrom (.code []) text.toList = some (codeTokens text) ∧ ∀ rest,
      lexFrom (.code []) (text.toList ++ quote :: rest)
        = (lexFrom (.literal []) rest).map (codeTokens text ++ ·) := by
  obtain ⟨ts, hts, happend⟩ := lexFrom_code htext []
  have hcode : codeTokens text = ts := by rw [codeTokens, lex, hts, Option.getD_some]
  rw [hcode]
  exact ⟨hts, happend⟩

/-- The tokens that are complete after a text, and the mode after it. -/
def scan : Mode → List Char → List Token × Mode
  | mode, [] => ([], mode)
  | mode, c :: cs => ((next mode c).1 ++ (scan (next mode c).2 cs).1, (scan (next mode c).2 cs).2)

theorem lexFrom_append (mode : Mode) (cs ds : List Char) :
    lexFrom mode (cs ++ ds) = (lexFrom (scan mode cs).2 ds).map ((scan mode cs).1 ++ ·) := by
  induction cs generalizing mode with
  | nil => simp [scan]
  | cons c cs ih =>
    rw [List.cons_append, lexFrom, ih, Option.map_map, scan]
    congr 1
    funext ts
    exact (List.append_assoc _ _ ts).symm

/-- A literal is the text of its characters: they are lexed as they are, without decoding the bytes
of the text. -/
theorem codeTokens_ofList (cs : List Char) :
    codeTokens (String.ofList cs) = (lexFrom (.code []) cs).getD [] := by
  rw [codeTokens, lex, String.toList_ofList]

/-- A text whose last token is complete, in front of another. -/
theorem codeTokens_append {t : String} (hs : scan (.code []) cs = (ts, .code []))
    (ht : quote ∉ t.toList) : codeTokens (String.ofList cs ++ t) = ts ++ codeTokens t := by
  rw [codeTokens, lex, String.toList_append, String.toList_ofList, lexFrom_append, hs,
    (lexFrom_codeTokens ht).1]
  rfl

/-! ## Literals -/

/-- The value of the literal whose text after the opening quote begins the list. -/
def literalBody : List Char → Option (List Char)
  | [] => none
  | [c] => if c = quote then some [] else none
  | c :: d :: cs =>
    if c = quote then
      if d = quote then (literalBody cs).map (quote :: ·) else some []
    else (literalBody (d :: cs)).map (c :: ·)

/-- A string without quotes is read up to the quote after it. -/
theorem lexFrom_literal {value : List Char} (hvalue : quote ∉ value) (acc rest : List Char) :
    lexFrom (.literal acc) (value ++ quote :: rest) = lexFrom (.closing (acc ++ value)) rest := by
  induction value generalizing acc with
  | nil => simp [lexFrom, next]
  | cons c value ih =>
    have hc : c ≠ quote := (List.ne_of_not_mem_cons hvalue).symm
    rw [List.cons_append, lexFrom, next, if_neg hc, ih (List.not_mem_of_not_mem_cons hvalue)]
    simp

theorem lexFrom_closing (hc : c ≠ quote) (value rest : List Char) :
    lexFrom (.closing value) (c :: rest)
      = (lexFrom (.code []) (c :: rest)).map (.literal value :: ·) := by
  simp only [lexFrom, next, if_neg hc, Option.map_map]
  rfl

/-- Whatever is read in a literal, the first token is a literal with the value that quoting
gives it. -/
theorem exists_literalBody_of_lexFrom {acc : List Char} (h : lexFrom (.literal acc) cs = some ts) :
    ∃ value us, literalBody cs = some value ∧ ts = .literal (acc ++ value) :: us := by
  induction cs using literalBody.induct generalizing acc ts with
  | case1 => cases h
  | case2 =>
    simp [lexFrom, next] at h
    exact ⟨[], [], by simp [literalBody], by simp [← h]⟩
  | case3 c hc =>
    simp [lexFrom, next, hc] at h
  | case4 cs ih =>
    simp only [lexFrom, next, if_true, List.nil_append, Option.map_id'] at h
    obtain ⟨value, us, hvalue, hts⟩ := ih h
    refine ⟨quote :: value, us, by simp [literalBody, hvalue], ?_⟩
    rw [hts, List.append_assoc, List.singleton_append]
  | case5 d cs hd =>
    simp only [lexFrom, next, if_true, if_neg hd, List.nil_append, Option.map_map,
      Option.map_eq_some_iff, Function.comp_apply] at h
    obtain ⟨us, -, hts⟩ := h
    exact ⟨[], _, by simp [literalBody, hd], by rw [← hts, List.append_nil]; rfl⟩
  | case6 c d cs hc ih =>
    rw [lexFrom, next, if_neg hc] at h
    simp only [List.nil_append, Option.map_id'] at h
    obtain ⟨value, us, hvalue, hts⟩ := ih h
    refine ⟨c :: value, us, by simp [literalBody, hc, hvalue], ?_⟩
    rw [hts, List.append_assoc, List.singleton_append]

theorem literalBody_of_ne (hc : c ≠ quote) (cs : List Char) :
    literalBody (c :: cs) = (literalBody cs).map (c :: ·) := by
  cases cs with
  | nil => simp [literalBody, hc]
  | cons d cs => rw [literalBody, if_neg hc]

theorem literalBody_quote (hrest : ∀ cs, rest ≠ quote :: cs) :
    literalBody (quote :: rest) = some [] := by
  cases rest with
  | nil => simp [literalBody]
  | cons c cs =>
    have hc : c ≠ quote := fun hc => hrest cs (by rw [hc])
    simp [literalBody, hc]

theorem literalBody_quote_quote (cs : List Char) :
    literalBody (quote :: quote :: cs) = (literalBody cs).map (quote :: ·) := by
  simp [literalBody]

theorem replicate_append_quote (n : ℕ) (cs : List Char) :
    List.replicate n quote ++ quote :: cs = quote :: (List.replicate n quote ++ cs) := by
  rw [← List.cons_append, ← List.replicate_succ, List.replicate_succ', List.append_assoc,
    List.singleton_append]

/-- A literal that goes on in the text after the string does not consist of quotes. -/
theorem literalBody_ne_replicate (hrest : ∀ cs, rest ≠ quote :: cs) (n : ℕ) :
    literalBody rest ≠ some (List.replicate n quote) := by
  cases rest with
  | nil => exact nofun
  | cons c cs =>
    have hc : c ≠ quote := fun hc => hrest cs (by rw [hc])
    rw [literalBody_of_ne hc]
    intro h
    obtain ⟨value, -, hvalue⟩ := Option.map_eq_some_iff.1 h
    have hmem : c ∈ List.replicate n quote := by
      rw [← hvalue]
      exact List.mem_cons_self
    exact hc (List.eq_of_mem_replicate hmem)

/-- The value of a literal is the string that was quoted, as it stands, only if the string has
no quote in it: every pair of quotes is read as one, and a last quote joins the one that was
to end the literal.  The pairs read so far are the quotes in front, so the induction is on the
string with any number of them. -/
theorem quote_notMem_of_literalBody (hrest : ∀ cs, rest ≠ quote :: cs) :
    ∀ (value : List Char) (pairs : ℕ),
      literalBody (value ++ quote :: rest) = some (List.replicate pairs quote ++ value) →
        pairs = 0 ∧ quote ∉ value
  | [], pairs, h => by
    rw [List.nil_append, literalBody_quote hrest, List.append_nil] at h
    exact ⟨by simpa using (Option.some.inj h).symm, List.not_mem_nil⟩
  | c :: value, pairs, h => by
    by_cases hc : c = quote
    · subst hc
      match value with
      | [] =>
        rw [List.cons_append, List.nil_append, literalBody_quote_quote,
          replicate_append_quote] at h
        obtain ⟨tail, htail, hcons⟩ := Option.map_eq_some_iff.1 h
        rw [List.tail_eq_of_cons_eq hcons, List.append_nil] at htail
        exact absurd htail (literalBody_ne_replicate hrest pairs)
      | d :: value =>
        by_cases hd : d = quote
        · subst hd
          rw [List.cons_append, List.cons_append, literalBody_quote_quote,
            replicate_append_quote] at h
          obtain ⟨tail, htail, hcons⟩ := Option.map_eq_some_iff.1 h
          rw [List.tail_eq_of_cons_eq hcons, replicate_append_quote, ← List.cons_append,
            ← List.replicate_succ] at htail
          exact absurd (quote_notMem_of_literalBody hrest value _ htail).1 (Nat.succ_ne_zero pairs)
        · rw [List.cons_append, List.cons_append,
            literalBody_quote (fun cs h => hd (List.head_eq_of_cons_eq h))] at h
          exact absurd (Option.some.inj h) (by simp)
    · rw [List.cons_append, literalBody_of_ne hc] at h
      obtain ⟨tail, htail, hcons⟩ := Option.map_eq_some_iff.1 h
      match pairs with
      | 0 =>
        rw [List.tail_eq_of_cons_eq hcons] at htail
        have hvalue := (quote_notMem_of_literalBody hrest value 0 htail).2
        exact ⟨rfl, List.not_mem_cons_of_ne_of_not_mem (Ne.symm hc) hvalue⟩
      | pairs + 1 =>
        rw [List.replicate_succ] at hcons
        exact absurd (List.head_eq_of_cons_eq hcons) hc

/-! ## Statements -/

/-- A string between quotes and the fixed text after it. -/
structure Hole where
  value : String
  after : String

structure Statement where
  lead : String
  holes : List Hole

def holesText : List Hole → String
  | [] => ""
  | h :: hs => "'" ++ h.value ++ "'" ++ h.after ++ holesText hs

theorem holesText_append (hs hs' : List Hole) :
    holesText (hs ++ hs') = holesText hs ++ holesText hs' := by
  induction hs with
  | nil => exact String.empty_append.symm
  | cons h hs ih => rw [List.cons_append, holesText, holesText, ih, ← String.append_assoc]

namespace Statement

def render (st : Statement) : String := st.lead ++ holesText st.holes

/-- The tokens of the fixed text, with each string as one literal. -/
def tokens (st : Statement) : List Token :=
  codeTokens st.lead ++
    st.holes.flatMap fun h => .literal h.value.toList :: codeTokens h.after

/-- The fixed text has no quotes, and some of it stands after each string. -/
structure WellFormed (st : Statement) : Prop where
  lead : quote ∉ st.lead.toList
  after : ∀ h ∈ st.holes, h.after ≠ "" ∧ quote ∉ h.after.toList

end Statement

/-- One string: the literal is intact and what follows it lexes as it should, exactly when the
string has no quote. -/
theorem lexFrom_hole {value : List Char} (hrest : ∀ cs, rest ≠ quote :: cs) (hne : rest ≠ [])
    (ts : List Token) :
    lexFrom (.literal []) (value ++ quote :: rest) = some (.literal value :: ts)
      ↔ quote ∉ value ∧ lexFrom (.code []) rest = some ts := by
  constructor
  · intro h
    obtain ⟨read, us, hread, hts⟩ := exists_literalBody_of_lexFrom h
    have hvalue : read = value := by
      rw [List.nil_append] at hts
      exact (Token.literal.inj (List.head_eq_of_cons_eq hts)).symm
    have hquote : quote ∉ value :=
      (quote_notMem_of_literalBody hrest value 0 (by rw [hread, hvalue]; rfl)).2
    obtain ⟨c, cs, rfl⟩ := List.exists_cons_of_ne_nil hne
    have hc : c ≠ quote := fun hc => hrest cs (by rw [hc])
    rw [lexFrom_literal hquote, lexFrom_closing hc, Option.map_eq_some_iff] at h
    obtain ⟨us, hus, hcons⟩ := h
    exact ⟨hquote, by rw [hus, List.tail_eq_of_cons_eq hcons]⟩
  · rintro ⟨hquote, hts⟩
    obtain ⟨c, cs, rfl⟩ := List.exists_cons_of_ne_nil hne
    have hc : c ≠ quote := fun hc => hrest cs (by rw [hc])
    rw [lexFrom_literal hquote, lexFrom_closing hc, hts]
    rfl

theorem lexFrom_holes {lead : String} {holes : List Hole} (hlead : quote ∉ lead.toList)
    (hafter : ∀ h ∈ holes, h.after ≠ "" ∧ quote ∉ h.after.toList) :
    lexFrom (.code []) (lead.toList ++ (holesText holes).toList)
        = some (codeTokens lead ++
          holes.flatMap fun h => .literal h.value.toList :: codeTokens h.after)
      ↔ ∀ h ∈ holes, quote ∉ h.value.toList := by
  induction holes generalizing lead with
  | nil =>
    refine iff_of_true ?_ nofun
    simp [holesText, (lexFrom_codeTokens hlead).1]
  | cons h holes ih =>
    obtain ⟨⟨hne, hplain⟩, htail⟩ := List.forall_mem_cons.1 hafter
    have htext : (holesText (h :: holes)).toList
        = quote :: (h.value.toList ++ quote :: (h.after.toList ++ (holesText holes).toList)) := by
      have hquote : "'".toList = [quote] := by decide
      simp [holesText, hquote]
    obtain ⟨c, cs, hcs⟩ := List.exists_cons_of_ne_nil (mt String.toList_eq_nil_iff.1 hne)
    have hc : c ≠ quote := fun hc => hplain (by rw [hcs, hc]; exact List.mem_cons_self)
    have hstart : ∀ ds, h.after.toList ++ (holesText holes).toList ≠ quote :: ds := by
      intro ds hds
      rw [hcs, List.cons_append] at hds
      exact hc (List.head_eq_of_cons_eq hds)
    have hsome : h.after.toList ++ (holesText holes).toList ≠ [] := by
      rw [hcs]
      exact nofun
    rw [htext, (lexFrom_codeTokens hlead).2, List.flatMap_cons, List.forall_mem_cons,
      ← ih hplain htail, List.cons_append, ← lexFrom_hole hstart hsome]
    exact (Option.map_injective (List.append_right_injective (codeTokens lead))).eq_iff
      (b := some _)

/-- **A statement lexes to its fixed text with every string as one literal exactly when no
string contains a quote.** -/
theorem lex_render_iff {st : Statement} (hst : st.WellFormed) :
    lex st.render = some st.tokens ↔ ∀ h ∈ st.holes, quote ∉ h.value.toList := by
  rw [lex, Statement.render, String.toList_append]
  exact lexFrom_holes hst.lead hst.after

end SqlLexer
