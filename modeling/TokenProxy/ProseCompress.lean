/-
  TokenProxy/ProseCompress.lean
  =============================
  **The prose compressor** (`prose_compress.py`).

  What a protection pattern matches is stashed away, and a number between two NULs, its sentinel,
  stands for it.  The removal rules then run over the rest, each once, and the sentinels are
  replaced by what they stand for, in at most eight passes, since a stashed span may have a
  sentinel in it.

  A text is the list of its characters; what is no text passes through.

  Main definition: `compressText`.
-/
import TokenProxy.CcrTenants
import TokenProxy.Regex
import TokenProxy.SecretPatterns

namespace TokenProxy.ProseCompress

open TokenProxy.Ccr (stripBy)
open TokenProxy.KeyStore (isSpace)
open TokenProxy.Redaction (Tables fold)
open TokenProxy.Regex

/-! ## 1. Characters -/

/-- The tables of the interpreter. -/
structure Chars extends Tables where
  /-- `\d` -/
  isDecimal : Char → Bool
  /-- `int(digits)` -/
  int : List Char → Nat
  asciiDecimal : ∀ c : Char, c.toNat < 128 → isDecimal c = c.isDigit
  asciiInt : ∀ digits : List Char, (∀ c ∈ digits, c.isDigit = true) →
    int digits = Nat.ofDigitChars 10 digits 0

def asciiChars : Chars where
  toTables := Redaction.asciiTables
  isDecimal := Char.isDigit
  int digits := Nat.ofDigitChars 10 digits 0
  asciiDecimal _ _ := rfl
  asciiInt _ _ := rfl

def nul : Char := '\x00'

/-- One of these characters. -/
def among (cs : String) (c : Char) : Bool := cs.toList.contains c

/-- A word in any case. -/
def anyCase (w : String) : Regex Char := word (fun c d => decide (fold d = c)) w.toList

/-- `\s*` -/
def spaces : Regex Char := .star true (.cls isSpace)

/-- The text before a place ends with this word, in any case. -/
def endsWith (w : String) (before : List Char) : Bool :=
  decide ((before.take w.toList.length).reverse.map fold = w.toList)

variable (py : Chars)

/-- `\b` -/
def boundary : Regex Char := .look fun before after => py.boundary before.head? after.head?

/-- `[\w-]` -/
def wordOrHyphen (c : Char) : Bool := py.isWord c || c = '-'

/-- `(?<![\w-])` -/
def notBehindWord : Regex Char := .look fun before _ => !before.head?.any (wordOrHyphen py)

/-- `(?![\w-])` -/
def notBeforeWord : Regex Char := .look fun _ after => !after.head?.any (wordOrHyphen py)

/-! ## 2. The removal rules -/

def fillers : Regex Char :=
  chain (.look fun before _ => !endsWith "not " before)
    [.look fun before _ => !endsWith "n't " before, .look fun before _ => !endsWith "n’t " before,
      .look fun before _ => !endsWith "never " before, notBehindWord py,
      oneOf (anyCase "just")
        [anyCase "really", anyCase "basically", anyCase "actually", anyCase "simply",
          anyCase "quite", anyCase "very", anyCase "essentially", anyCase "literally"],
      notBeforeWord py]

def pleasantries : Regex Char :=
  chain (notBehindWord py)
    [oneOf (anyCase "please")
        [anyCase "kindly", anyCase "thank you", anyCase "thanks", anyCase "certainly",
          anyCase "of course", anyCase "happy to",
          chain (anyCase "i") [opt (anyCase "'"), anyCase "d be happy"]],
      notBeforeWord py, opt (.cls (among ",.")), spaces]

/-- The end of a sentence, and a space. -/
def behindSentence : List Char → Bool
  | space :: stop :: _ => among ".!?" stop && isSpace space
  | _ => false

def replySure : Regex Char :=
  chain (.alt (.look fun before _ => before.isEmpty) (.look fun before _ => behindSentence before))
    [anyCase "sure", .cls (among ",.!"), spaces]

def hedges : Regex Char :=
  chain (notBehindWord py)
    [oneOf (anyCase "would like to")
        [anyCase "i think", anyCase "in my opinion", anyCase "it seems"],
      notBeforeWord py, spaces]

def leaders : Regex Char :=
  chain (.look fun before _ => before.isEmpty || before.head? = some '\n')
    [oneOf (chain (anyCase "i") [opt (anyCase "'"), anyCase "ll"])
        [anyCase "i will", anyCase "i can",
          chain (anyCase "i") [opt (anyCase "'"), anyCase "d"], anyCase "you can",
          anyCase "we will", anyCase "we can", anyCase "let me",
          chain (anyCase "let") [opt (anyCase "'"), anyCase "s"]],
      plus (.cls isSpace)]

def articles : Regex Char :=
  chain (notBehindWord py)
    [oneOf (anyCase "a") [anyCase "an", anyCase "the"], plus (.cls isSpace),
      .look fun _ after => after.head?.any Char.isLower]

/-- `[ \t]{2,}` -/
def blankRuns : Regex Char :=
  chain (.cls (among " \t")) [.cls (among " \t"), .star true (.cls (among " \t"))]

/-- `\s+([,.;:!?])` -/
def spacedPunctuation : Regex Char := chain (plus (.cls isSpace)) [.cls (among ",.;:!?")]

/-- `\n{3,}` -/
def lineRuns : Regex Char :=
  chain (.cls (among "\n"))
    [.cls (among "\n"), .cls (among "\n"), .star true (.cls (among "\n"))]

/-- A rule, and what stands for a match. -/
structure Rule where
  pattern : Regex Char
  repl : List Char → List Char

def Rule.apply (rule : Rule) (s : List Char) : List Char := sub rule.pattern rule.repl s

def removal (pattern : Regex Char) : Rule := ⟨pattern, fun _ => []⟩

/-- The rules, in their order. -/
def rules : List Rule :=
  [removal leaders, removal replySure, removal (pleasantries py), removal (hedges py),
    removal (fillers py), removal (articles py), ⟨blankRuns, fun _ => [' ']⟩,
    ⟨spacedPunctuation, fun w => w.getLast?.toList⟩, ⟨lineRuns, fun _ => ['\n', '\n']⟩]

/-- `_compress_prose` -/
def compressProse (text : List Char) : List Char :=
  stripBy isSpace ((rules py).foldl (fun s rule => rule.apply s) text)

/-! ## 3. The protection patterns -/

def letter (c : Char) : Bool := c.isUpper || c.isLower

def fence (mark : String) : Regex Char :=
  chain (word (fun c d => decide (d = c)) mark.toList)
    [.star false (.cls fun _ => true), word (fun c d => decide (d = c)) mark.toList]

def inlineCode : Regex Char :=
  chain (.cls (among "\x60")) [plus (.cls fun c => !among "\x60\n" c), .cls (among "\x60")]

def urlBody (c : Char) : Bool := !isSpace c && !among "<>\"'\x60" c

def urlEnd (c : Char) : Bool := urlBody c && !among ".,;:!?)" c

def urls : Regex Char :=
  chain (boundary py)
    [anyCase "http", opt (anyCase "s"), anyCase "://", .star true (.cls urlBody), .cls urlEnd]

def paths : Regex Char :=
  chain (.look fun before _ => !before.head?.any fun c => py.isWord c || among ".-" c)
    [.star true (.cls fun c => py.isWord c || among ".-" c), .cls (among "/\\"),
      .star true (.cls fun c => py.isWord c || among "./\\-" c),
      .cls fun c => py.isWord c || among "/\\-" c]

def wordRun : Regex Char := plus (.cls py.isWord)

def dottedNames : Regex Char :=
  chain (boundary py)
    [wordRun py, .cls (among "."), wordRun py, .star true (.seq (.cls (among ".")) (wordRun py)),
      opt (.cls (among "(")), opt (.cls (among ")"))]

def calls : Regex Char :=
  chain (.look fun before _ => !before.head?.any fun c => c.isAlphanum || c = '_')
    [.cls fun c => letter c || c = '_', .star true (.cls fun c => c.isAlphanum || c = '_'),
      .cls (among "("), .star true (.cls fun c => !among "()" c), .cls (among ")")]

def underscoredNames : Regex Char :=
  chain (boundary py)
    [.ahead (.seq (.star true (.cls py.isWord)) (.cls (among "_"))),
      .ahead (.seq (.star true (.cls py.isWord)) (.cls letter)), wordRun py, boundary py]

def camelNames : Regex Char :=
  chain (boundary py)
    [.alt (plus (.cls Char.isLower))
        (.seq (.cls Char.isUpper) (plus (.cls fun c => c.isLower || c.isDigit))),
      .cls Char.isUpper, .star true (.cls py.isWord), boundary py]

def versions : Regex Char :=
  chain (boundary py)
    [plus (.cls py.isDecimal), .cls (among "."), plus (.cls py.isDecimal), .cls (among "."),
      plus (.cls py.isDecimal), boundary py]

/-- `_PROTECTED_PATTERNS` -/
def protectedPatterns : List (Regex Char) :=
  [.alt (fence "\x60\x60\x60") (fence "~~~"), inlineCode, urls py, paths py, dottedNames py, calls,
    underscoredNames py, camelNames py, versions py]

/-! ## 4. Stashing and restoring -/

/-- `f"{_SENTINEL}{n}{_SENTINEL}"` -/
def sentinel (n : Nat) : List Char := nul :: (Nat.toDigits 10 n ++ [nul])

/-- The working text and the segments. -/
abbrev Stash := List Char × List (List Char)

/-- `pat.sub(_stash, …)` over the parts of a text. -/
def stashParts : List (Piece Char) → List (List Char) → Stash
  | [], segments => ([], segments)
  | .lit c :: parts, segments =>
    let (working, segments) := stashParts parts segments
    (c :: working, segments)
  | .hit w :: parts, segments =>
    let (working, stored) := stashParts parts (segments ++ [w])
    (sentinel segments.length ++ working, stored)

def stashAll (patterns : List (Regex Char)) (text : List Char) : Stash :=
  patterns.foldl (fun st pattern => stashParts (finditer pattern st.1) st.2) (text, [])

/-- `_SENTINEL_RE` -/
def sentinelRe : Regex Char :=
  chain (.cls fun c => c = nul) [plus (.cls py.isDecimal), .cls fun c => c = nul]

/-- `_restore`, of a match; its group is what is between the NULs. -/
def restore (segments : List (List Char)) (w : List Char) : List Char :=
  (segments[py.int w.tail.dropLast]?).getD w

def Piece.isHit : Piece Char → Bool
  | .hit _ => true
  | .lit _ => false

def restoreLoop (segments : List (List Char)) : Nat → List Char → List Char
  | 0, out => out
  | passes + 1, out =>
    if (finditer (sentinelRe py) out).any Piece.isHit then
      restoreLoop segments passes (sub (sentinelRe py) (restore py segments) out)
    else out

def maxRestorePasses : Nat := 8

/-- `_with_protected_segments` -/
def withProtectedSegments (text : List Char) (transform : List Char → List Char) : List Char :=
  let (working, segments) := stashAll (protectedPatterns py) text
  restoreLoop py segments maxRestorePasses (transform working)

/-! ## 5. Compressing -/

structure Compressed where
  compressed : List Char
  before : Nat
  after : Nat
deriving DecidableEq

/-- `compress` -/
def compress (text : List Char) : Compressed :=
  if text = [] then ⟨text, 0, 0⟩
  else
    let compressed := withProtectedSegments py (text.filter fun c => c ≠ nul) (compressProse py)
    ⟨compressed, text.length, compressed.length⟩

def compressText (text : List Char) : List Char := (compress py text).compressed

end TokenProxy.ProseCompress
