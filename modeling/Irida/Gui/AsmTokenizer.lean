import Irida.Base
import Irida.Lib.Segments
import Mathlib.Data.List.TakeWhile

/-!
# The assembly tokenizer

`theme::tokenize` splits the text of an instruction into typed tokens for the delegate that paints
it.  Its words and its whitespace come out in maximal stretches, every other character alone, so the
texts of the tokens are the blocks of the text (`Scans.texts`).

The length of the text is held in an `int`.  `tokenizes_iff` says that the tokens are those that the
header promises if and only if the length fits.
-/

namespace Irida.Gui

open Segments

/-- `QChar`, a UTF-16 code unit. -/
abbrev QChar := BitVec 16

abbrev QString := List QChar

/-- A character literal. -/
def qchar (c : Char) : QChar :=
  BitVec.ofNat 16 c.toNat

/-- A string literal. -/
def qstring (s : String) : QString :=
  s.toList.map qchar

/-- What the tokenizer asks Qt. -/
structure QtText where
  isSpace : QChar → Bool
  isLetterOrNumber : QChar → Bool
  isDigit : QChar → Bool
  toLower : QString → QString

/-- `[` and `]`. -/
def isBrace (c : QChar) : Bool :=
  c == qchar '[' || c == qchar ']'

/-- `,`, `+`, `*`, `:` and `-`. -/
def isPunctuation (c : QChar) : Bool :=
  c == qchar ',' || c == qchar '+' || c == qchar '*' || c == qchar ':' || c == qchar '-'

/-- The classes of Qt are disjoint, and the characters that the tokenizer names are in neither,
except that an underscore may count as a letter. -/
structure QtText.Separate (qt : QtText) : Prop where
  space : ∀ c, qt.isSpace c = true → qt.isLetterOrNumber c = false
  named : ∀ c, isBrace c = true ∨ isPunctuation c = true →
    qt.isSpace c = false ∧ qt.isLetterOrNumber c = false
  underscore : qt.isSpace (qchar '_') = false

/-- `TokenKind`. -/
inductive TokenKind
  | mnemonic
  | register
  | number
  | brace
  | punctuation
  | whitespace
  | text
  deriving DecidableEq

/-- `Token`. -/
structure Token where
  text : QString
  kind : TokenKind
  deriving DecidableEq

/-- `registerNames`. -/
def registerNames : List QString :=
  ["rax", "rbx", "rcx", "rdx", "rsi", "rdi", "rbp", "rsp", "rip", "r8", "r9", "r10",
    "r11", "r12", "r13", "r14", "r15", "eax", "ebx", "ecx", "edx", "esi", "edi", "ebp",
    "esp", "r8d", "r9d", "ax", "bx", "cx", "dx", "al", "bl", "cl", "dl", "ah",
    "bh", "ch", "dh", "sil", "dil", "bpl", "spl", "xmm0", "xmm1", "xmm2", "xmm3", "xmm4",
    "xmm5", "xmm6", "xmm7", "cs", "ds", "es", "fs", "gs", "ss"].map qstring

section Tokenizer

variable (qt : QtText)

/-- `isWordChar`. -/
def isWordChar (c : QChar) : Bool :=
  qt.isLetterOrNumber c || c == qchar '_'

/-- `looksLikeNumber`. -/
def looksLikeNumber (w : QString) : Bool :=
  if w.isEmpty then false
  else if (qstring "0x").isPrefixOf w || (qstring "0X").isPrefixOf w then true
  else w.all qt.isDigit

/-- The kind of a word. -/
def wordKind (seenMnemonic : Bool) (w : QString) : TokenKind :=
  if !seenMnemonic then .mnemonic
  else if registerNames.contains (qt.toLower w) then .register
  else if looksLikeNumber qt w then .number
  else .text

/-- The loop of `tokenize`, on what is left of the text at the index. -/
def tokenizeLoop (seenMnemonic : Bool) : QString → List Token
  | [] => []
  | c :: rest =>
    if qt.isSpace c then
      ⟨c :: rest.takeWhile qt.isSpace, .whitespace⟩ ::
        tokenizeLoop seenMnemonic (rest.dropWhile qt.isSpace)
    else if isBrace c then ⟨[c], .brace⟩ :: tokenizeLoop seenMnemonic rest
    else if isPunctuation c then ⟨[c], .punctuation⟩ :: tokenizeLoop seenMnemonic rest
    else if isWordChar qt c then
      let w := c :: rest.takeWhile (isWordChar qt)
      ⟨w, wordKind qt seenMnemonic w⟩ :: tokenizeLoop true (rest.dropWhile (isWordChar qt))
    else ⟨[c], .text⟩ :: tokenizeLoop seenMnemonic rest
  termination_by s => s.length
  decreasing_by
    all_goals
      have hspace := (rest.dropWhile_suffix qt.isSpace).length_le
      have hword := (rest.dropWhile_suffix (isWordChar qt)).length_le
      simp only [List.length_cons]
      omega

/-- The characters that the loop comes to: those below `n`, which is the length as an `int`. -/
def inLoop (instruction : QString) : QString :=
  let n := asInt instruction.length
  instruction.take n.toNat

/-- `tokenize`. -/
def tokenize (instruction : QString) : List Token :=
  tokenizeLoop qt false (inLoop instruction)

/-- The texts of tokens, one behind the other. -/
def rejoin (tokens : List Token) : QString :=
  tokens.flatMap Token.text

/-- A token of word characters. -/
def Token.IsWord (t : Token) : Prop :=
  t.text ≠ [] ∧ ∀ c ∈ t.text, isWordChar qt c = true

/-- One of the tokens is this stretch of the text. -/
def OneToken (tokens : List Token) (before run : QString) : Prop :=
  ∃ front t back, tokens = front ++ t :: back ∧ rejoin front = before ∧ t.text = run

/-- What `tokenize` is for. -/
structure Tokenizes (instruction : QString) (tokens : List Token) : Prop where
  ne_nil : ∀ t ∈ tokens, t.text ≠ []
  rejoin_eq : rejoin tokens = instruction
  spaces : ∀ before run after, before ++ run ++ after = instruction →
    Maximal (qt.isSpace · = true) before run after → OneToken tokens before run
  words : ∀ before run after, before ++ run ++ after = instruction →
    Maximal (isWordChar qt · = true) before run after → OneToken tokens before run
  mnemonic : ∀ front t back, tokens = front ++ t :: back →
    (t.kind = .mnemonic ↔ t.IsWord qt ∧ ∀ u ∈ front, ¬ u.IsWord qt)

end Tokenizer

/-! ## Classes of characters -/

/-- The characters that stand together in tokens. -/
inductive CharClass
  | space
  | word
  deriving DecidableEq

/-- The class of a character, which a brace, a punctuation or any other character does not have. -/
def classOf (qt : QtText) (c : QChar) : Option CharClass :=
  if qt.isSpace c then some .space else if isWordChar qt c then some .word else none

section Classes

variable {qt : QtText} {c : QChar}

theorem classOf_eq_space : classOf qt c = some .space ↔ qt.isSpace c = true := by
  unfold classOf
  split <;> simp_all

theorem QtText.Separate.not_word (hqt : qt.Separate) (hc : qt.isSpace c = true) :
    isWordChar qt c = false := by
  have hne : c ≠ qchar '_' := by
    rintro rfl
    rw [hqt.underscore] at hc
    cases hc
  simp [isWordChar, hqt.space c hc, hne]

theorem QtText.Separate.classOf_eq_word (hqt : qt.Separate) :
    classOf qt c = some .word ↔ isWordChar qt c = true := by
  unfold classOf
  split
  · next hc => simp [hqt.not_word hc]
  · simp

theorem QtText.Separate.classOf_eq_none (hqt : qt.Separate)
    (hc : isBrace c = true ∨ isPunctuation c = true) : classOf qt c = none := by
  have hne : c ≠ qchar '_' := by
    rintro rfl
    revert hc
    decide
  obtain ⟨hspace, hletter⟩ := hqt.named c hc
  simp [classOf, isWordChar, hspace, hletter, hne]

end Classes

/-! ## What a scan makes -/

/-- Tokens are read off a text by the classes of its characters.  The flag says whether a word has
been read already. -/
inductive Scans (qt : QtText) : Bool → QString → List Token → Prop
  | done (seen : Bool) : Scans qt seen [] []
  | stretch {seen : Bool} {run rest : QString} {kind : TokenKind} {tokens : List Token}
      (k : CharClass) (hne : run ≠ []) (hrun : ∀ c ∈ run, classOf qt c = some k)
      (hend : ∀ c ∈ rest.head?, classOf qt c ≠ some k)
      (hkind : kind = .mnemonic ↔ k = .word ∧ seen = false)
      (h : Scans qt (seen || decide (k = .word)) rest tokens) :
      Scans qt seen (run ++ rest) (⟨run, kind⟩ :: tokens)
  | single {seen : Bool} {c : QChar} {rest : QString} {kind : TokenKind} {tokens : List Token}
      (hc : classOf qt c = none) (hkind : kind ≠ .mnemonic) (h : Scans qt seen rest tokens) :
      Scans qt seen (c :: rest) (⟨[c], kind⟩ :: tokens)

section Scans

variable {qt : QtText} {seen : Bool} {s : QString} {tokens : List Token}

theorem Scans.ne_nil (h : Scans qt seen s tokens) : ∀ t ∈ tokens, t.text ≠ [] := by
  induction h with
  | done => simp
  | stretch k hne _ _ _ _ ih => exact List.forall_mem_cons.mpr ⟨hne, ih⟩
  | single _ _ _ ih => exact List.forall_mem_cons.mpr ⟨List.cons_ne_nil _ _, ih⟩

/-- **The texts of the tokens are the blocks of the text.** -/
theorem Scans.texts (h : Scans qt seen s tokens) :
    tokens.map Token.text = segments (classOf qt) s := by
  induction h with
  | done => rfl
  | stretch k hne hrun hend _ _ ih => rw [List.map_cons, ih, segments_append hne hrun hend]
  | single hc _ _ ih => rw [List.map_cons, ih, segments_cons hc]

theorem Scans.rejoin_eq (h : Scans qt seen s tokens) : rejoin tokens = s := by
  rw [rejoin, List.flatMap_def, h.texts, flatten_segments]

theorem Scans.oneToken (h : Scans qt seen s tokens) {k : CharClass} {before run after : QString}
    (hs : before ++ run ++ after = s)
    (hmax : Maximal (fun c => classOf qt c = some k) before run after) :
    OneToken tokens before run := by
  have htexts := h.texts
  rw [← hs, segments_of_maximal hmax] at htexts
  obtain ⟨front, others, rfl, hfront, hothers⟩ := List.map_eq_append_iff.mp htexts
  obtain ⟨t, back, rfl, ht, -⟩ := List.map_eq_cons_iff.mp hothers
  refine ⟨front, t, back, rfl, ?_, ht⟩
  rw [rejoin, List.flatMap_def, hfront, flatten_segments]

theorem isWord_iff (hqt : qt.Separate) {run : QString} (kind : TokenKind) {k : CharClass}
    (hne : run ≠ []) (hrun : ∀ c ∈ run, classOf qt c = some k) :
    Token.IsWord qt ⟨run, kind⟩ ↔ k = .word := by
  constructor
  · rintro ⟨-, hword⟩
    obtain ⟨c, hc⟩ := List.exists_mem_of_ne_nil run hne
    have hclass := hqt.classOf_eq_word.mpr (hword c hc)
    exact Option.some.inj ((hrun c hc).symm.trans hclass)
  · rintro rfl
    exact ⟨hne, fun c hc => hqt.classOf_eq_word.mp (hrun c hc)⟩

theorem not_isWord (hqt : qt.Separate) {c : QChar} (kind : TokenKind)
    (hc : classOf qt c = none) : ¬ Token.IsWord qt ⟨[c], kind⟩ := by
  rintro ⟨-, hword⟩
  have hclass := hqt.classOf_eq_word.mpr (hword c (by simp))
  rw [hc] at hclass
  cases hclass

/-- The mnemonic is the first word, unless one has been read before. -/
theorem Scans.mnemonic (hqt : qt.Separate) (h : Scans qt seen s tokens) :
    ∀ front t back, tokens = front ++ t :: back →
      (t.kind = .mnemonic ↔ seen = false ∧ t.IsWord qt ∧ ∀ u ∈ front, ¬ u.IsWord qt) := by
  induction h with
  | done =>
      intro front t back heq
      cases front <;> cases heq
  | @stretch seen run rest kind tokens k hne hrun _ hkind _ ih =>
      intro front t back heq
      have hword := isWord_iff hqt kind hne hrun
      cases front with
      | nil =>
          obtain ⟨rfl, -⟩ := List.cons.inj heq
          simp [hword, hkind, and_comm]
      | cons u front =>
          obtain ⟨rfl, htail⟩ := List.cons.inj heq
          rw [ih front t back htail]
          simp [hword, and_assoc, and_left_comm]
  | @single seen c rest kind tokens hc hkind _ ih =>
      intro front t back heq
      have hword := not_isWord hqt kind hc
      cases front with
      | nil =>
          obtain ⟨rfl, -⟩ := List.cons.inj heq
          simp [hword, hkind]
      | cons u front =>
          obtain ⟨rfl, htail⟩ := List.cons.inj heq
          rw [ih front t back htail]
          simp [hword]

/-- A scan from the start of a text does what the tokenizer is for. -/
theorem Scans.tokenizes (hqt : qt.Separate) (h : Scans qt false s tokens) :
    Tokenizes qt s tokens where
  ne_nil := h.ne_nil
  rejoin_eq := h.rejoin_eq
  spaces before run after hs hmax := by
    apply h.oneToken (k := .space) hs
    simpa only [classOf_eq_space] using hmax
  words before run after hs hmax := by
    apply h.oneToken (k := .word) hs
    simpa only [hqt.classOf_eq_word] using hmax
  mnemonic front t back heq := by simpa using h.mnemonic hqt front t back heq

end Scans

/-! ## The loop scans -/

section Loop

variable {qt : QtText} {seen : Bool} {c : QChar} {rest : QString} {p : QChar → Bool}

theorem wordKind_eq_mnemonic {w : QString} : wordKind qt seen w = .mnemonic ↔ seen = false := by
  unfold wordKind
  cases seen
  · simp
  · simp only [Bool.not_true, Bool.false_eq_true, if_false, reduceCtorEq, iff_false]
    split
    · simp
    · split <;> simp

theorem classOf_head_dropWhile {k : CharClass} (hp : ∀ c, classOf qt c = some k ↔ p c = true) :
    ∀ c ∈ (rest.dropWhile p).head?, classOf qt c ≠ some k := by
  intro c hc
  rw [ne_eq, hp, Bool.not_eq_true]
  have hnot := List.head?_dropWhile_not p rest
  rw [Option.mem_def.mp hc] at hnot
  simpa using hnot

theorem classOf_takeWhile {k : CharClass} (hp : ∀ c, classOf qt c = some k ↔ p c = true)
    (hc : p c = true) : ∀ x ∈ c :: rest.takeWhile p, classOf qt x = some k := by
  intro x hx
  rw [hp]
  rcases List.mem_cons.mp hx with rfl | hx
  · exact hc
  · exact List.mem_takeWhile_imp hx

theorem Scans.stretch_takeWhile {k : CharClass} {kind : TokenKind} {tokens : List Token}
    (hp : ∀ c, classOf qt c = some k ↔ p c = true) (hc : p c = true)
    (hkind : kind = .mnemonic ↔ k = .word ∧ seen = false)
    (h : Scans qt (seen || decide (k = .word)) (rest.dropWhile p) tokens) :
    Scans qt seen (c :: rest) (⟨c :: rest.takeWhile p, kind⟩ :: tokens) := by
  have hsplit : c :: rest = (c :: rest.takeWhile p) ++ rest.dropWhile p := by
    rw [List.cons_append, List.takeWhile_append_dropWhile]
  rw [hsplit]
  exact .stretch k (List.cons_ne_nil _ _) (classOf_takeWhile hp hc) (classOf_head_dropWhile hp)
    hkind h

theorem scans_tokenizeLoop (hqt : qt.Separate) (seen : Bool) (s : QString) :
    Scans qt seen s (tokenizeLoop qt seen s) := by
  induction seen, s using tokenizeLoop.induct qt with
  | case1 seen =>
      rw [tokenizeLoop]
      exact .done seen
  | case2 seen c rest hspace ih =>
      rw [tokenizeLoop, if_pos hspace]
      exact .stretch_takeWhile (fun c => classOf_eq_space) hspace (by simp) (by simpa using ih)
  | case3 seen c rest hspace hbrace ih =>
      rw [tokenizeLoop, if_neg hspace, if_pos hbrace]
      exact .single (hqt.classOf_eq_none (.inl hbrace)) (by simp) ih
  | case4 seen c rest hspace hbrace hpunct ih =>
      rw [tokenizeLoop, if_neg hspace, if_neg hbrace, if_pos hpunct]
      exact .single (hqt.classOf_eq_none (.inr hpunct)) (by simp) ih
  | case5 seen c rest hspace hbrace hpunct hword ih =>
      rw [tokenizeLoop, if_neg hspace, if_neg hbrace, if_neg hpunct, if_pos hword]
      refine .stretch_takeWhile (fun c => hqt.classOf_eq_word) hword ?_ (by simpa using ih)
      simp [wordKind_eq_mnemonic]
  | case6 seen c rest hspace hbrace hpunct hword ih =>
      rw [tokenizeLoop, if_neg hspace, if_neg hbrace, if_neg hpunct, if_neg hword]
      exact .single (by simp [classOf, hspace, hword]) (by simp) ih

end Loop

/-! ## The length -/

section Length

variable {qt : QtText} {instruction : QString}

theorem rejoin_tokenize (hqt : qt.Separate) :
    rejoin (tokenize qt instruction) = inLoop instruction :=
  (scans_tokenizeLoop hqt false _).rejoin_eq

theorem inLoop_of_lt (h : instruction.length < 2 ^ 31) : inLoop instruction = instruction := by
  rw [inLoop, asInt_of_lt h, Int.toNat_natCast, List.take_length]

theorem length_inLoop_lt (instruction : QString) : (inLoop instruction).length < 2 ^ 31 := by
  have hn := asInt_lt instruction.length
  rw [inLoop, List.length_take]
  omega

/-- **The tokens are as promised** if and only if the length of the text is an `int`. -/
theorem tokenizes_iff (hqt : qt.Separate) (instruction : QString) :
    Tokenizes qt instruction (tokenize qt instruction) ↔ instruction.length < 2 ^ 31 := by
  constructor
  · intro h
    have hall : inLoop instruction = instruction := (rejoin_tokenize hqt).symm.trans h.rejoin_eq
    have hlt := length_inLoop_lt instruction
    rwa [hall] at hlt
  · intro h
    have hscan := scans_tokenizeLoop hqt false (inLoop instruction)
    rw [inLoop_of_lt h] at hscan
    rw [tokenize, inLoop_of_lt h]
    exact hscan.tokenizes hqt

end Length

/-! ## A text of `2 ^ 31` characters -/

/-- The classes on ASCII. -/
def asciiText : QtText where
  isSpace c := c == 0x20 || decide (9 ≤ c ∧ c ≤ 13)
  isLetterOrNumber c :=
    decide (0x30 ≤ c ∧ c ≤ 0x39) || decide (0x41 ≤ c ∧ c ≤ 0x5a) || decide (0x61 ≤ c ∧ c ≤ 0x7a)
  isDigit c := decide (0x30 ≤ c ∧ c ≤ 0x39)
  toLower s := s.map fun c => if 0x41 ≤ c ∧ c ≤ 0x5a then c + 0x20 else c

theorem separate_asciiText : asciiText.Separate where
  space c hc := by
    simp only [asciiText] at hc ⊢
    grind
  named c hc := by
    simp only [isBrace, isPunctuation, Bool.or_eq_true, beq_iff_eq] at hc
    rcases hc with (rfl | rfl) | (((rfl | rfl) | rfl) | rfl) | rfl <;> decide
  underscore := by decide

example : tokenize asciiText (qstring "mov  r8d, [rax+0x8]") =
    [⟨qstring "mov", .mnemonic⟩, ⟨qstring "  ", .whitespace⟩, ⟨qstring "r8d", .register⟩,
      ⟨qstring ",", .punctuation⟩, ⟨qstring " ", .whitespace⟩, ⟨qstring "[", .brace⟩,
      ⟨qstring "rax", .register⟩, ⟨qstring "+", .punctuation⟩, ⟨qstring "0x8", .number⟩,
      ⟨qstring "]", .brace⟩] := by
  decide +kernel

/-- A text whose length fits. -/
theorem tokenizes_iff_mov :
    Tokenizes asciiText (qstring "mov rcx, [rax+8]")
        (tokenize asciiText (qstring "mov rcx, [rax+8]")) ↔
      (qstring "mov rcx, [rax+8]").length < 2 ^ 31 :=
  tokenizes_iff separate_asciiText (qstring "mov rcx, [rax+8]")

/-- The length of this text is a negative `int`, and the tokens are none. -/
theorem not_tokenizes_long :
    tokenize asciiText (List.replicate (2 ^ 31) (qchar 'a')) = [] ∧
      ¬ Tokenizes asciiText (List.replicate (2 ^ 31) (qchar 'a'))
        (tokenize asciiText (List.replicate (2 ^ 31) (qchar 'a'))) := by
  have hnone : inLoop (List.replicate (2 ^ 31) (qchar 'a')) = [] := by
    rw [inLoop, List.length_replicate]
    exact List.take_zero
  have htokens : tokenize asciiText (List.replicate (2 ^ 31) (qchar 'a')) = [] := by
    rw [tokenize, hnone, tokenizeLoop]
  refine ⟨htokens, fun h => ?_⟩
  have hlength := congrArg List.length h.rejoin_eq
  rw [htokens, List.length_replicate] at hlength
  exact absurd hlength (by decide)

end Irida.Gui
