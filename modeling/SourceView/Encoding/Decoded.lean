import SourceView.Fault

/-! What decoding makes of a file: characters, and stretches of bytes that stand for none. What
becomes of the latter is a matter of policy and is settled after decoding. -/
namespace SourceView.Encoding

/-- A character, or a stretch of malformed bytes given by the position of its first byte. -/
inductive Decoded
  | char (c : Char)
  | malformed (start : Nat)
  deriving DecidableEq

/-- What becomes of malformed bytes. -/
inductive Policy
  | strict
  | replace
  | ignore
  deriving DecidableEq

/-- The character that stands for malformed bytes. -/
def replacementChar : Char := Char.ofNat 0xFFFD

/-- The text that decoding gave. The strict policy refuses the first malformed stretch, and the
others put a replacement character or nothing in place of each. -/
def resolve (policy : Policy) : List Decoded → Except Fault (List Char)
  | [] => .ok []
  | .char c :: rest => do return c :: (← resolve policy rest)
  | .malformed start :: rest =>
    match policy with
    | .strict => .error (.malformedBytes start)
    | .replace => do return replacementChar :: (← resolve policy rest)
    | .ignore => resolve policy rest

/-- Characters alone are a text under every policy. -/
theorem resolve_map_char (policy : Policy) (text : List Char) :
    resolve policy (text.map .char) = .ok text := by
  induction text with
  | nil => rfl
  | cons c rest ih => simp [resolve, ih, bind, Except.bind, pure, Except.pure]

end SourceView.Encoding
