/-!
# Spans

A `Span` is a stretch of a source text, given by the byte offsets of its two ends. Every token, tree
node and error carries one. Spans that come from outside, such as the labels of a diagnostic, may have
their ends in any order and anywhere, so the type does not ask for more.
-/
namespace TriLang
set_option autoImplicit false

/-- A stretch of source text: the offset of its first byte, and the offset just past its last one. -/
structure Span where
  start : Nat
  stop : Nat
deriving DecidableEq, Inhabited

namespace Span

/-- The least span that covers both. -/
def join (a b : Span) : Span := ⟨min a.start b.start, max a.stop b.stop⟩

def point (offset : Nat) : Span := ⟨offset, offset⟩

end Span

end TriLang
