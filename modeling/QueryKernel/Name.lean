/-!
# Names

Expanded names (a namespace and a local part), qualified names with a lexical qualifier, and the
namespaces that the built-in functions and errors live in.
-/

namespace QueryKernel

/-- A name that consists of an optional namespace and a local part. -/
structure ExpandedName where
  namespaceUri : Option String
  localPart : String
  deriving DecidableEq

/-- The namespace in `Q\x7b…\x7d` before the local part. -/
def ExpandedName.text (n : ExpandedName) : String :=
  match n.namespaceUri with
  | some uri => "Q\x7b" ++ uri ++ "\x7d" ++ n.localPart
  | none => n.localPart

/-- A name as written, with the namespace its qualifier stands for. -/
structure QualifiedName where
  namespaceUri : Option String
  qualifier : Option String
  localPart : String
  deriving DecidableEq

/-- The qualifier, if there is one, a colon, and the local part. -/
def QualifiedName.text (n : QualifiedName) : String :=
  match n.qualifier with
  | some q => if q.isEmpty then n.localPart else q ++ ":" ++ n.localPart
  | none => n.localPart

/-- Namespace of the standard functions. -/
def functionNamespace : String := "http://www.w3.org/2005/xpath-functions"

/-- Namespace of the additional higher-order functions. -/
def higherOrderNamespace : String := "http://www.w3.org/2005/xpath-functions/hof"

/-- Namespace of the standard error codes. -/
def errorNamespace : String := "http://www.w3.org/2005/xqt-errors"

end QueryKernel
