/-! Spans: maximal runs of bytes that are all code or all of one kind of literal text. -/
namespace SourceMend

inductive SpanKind where
  | code
  | string
  | template
  | lineComment
  | blockComment
  | regex
  | markup
  deriving DecidableEq, Repr, Inhabited

structure Span where
  kind : SpanKind
  start : Nat
  stop : Nat
  deriving DecidableEq, Repr, Inhabited

end SourceMend
