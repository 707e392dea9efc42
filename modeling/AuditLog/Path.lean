import AuditLog.Text.Split

/-! Dotted paths to the fields of a record. A path is a list of segments; text is cut
at dots and its empty segments are dropped, while a segment given directly may hold
anything. -/
namespace AuditLog

structure Path where
  segments : List String
deriving DecidableEq, Inhabited

namespace Path

/-- Segment by segment, each by code points; a path comes before its extensions. -/
instance : Ord Path := ⟨fun a b => compare a.segments b.segments⟩

def of (segment : String) : Path := ⟨[segment]⟩

def parse (s : String) : Path := ⟨(Text.split '.' s).filter (!·.isEmpty)⟩

def child (path : Path) (segment : String) : Path := ⟨path.segments ++ [segment]⟩

def append (path other : Path) : Path := ⟨path.segments ++ other.segments⟩

instance : Append Path := ⟨append⟩

def first? (path : Path) : Option String := path.segments.head?

def rest (path : Path) : Path := ⟨path.segments.drop 1⟩

def length (path : Path) : Nat := path.segments.length

def isEmpty (path : Path) : Bool := path.segments.isEmpty

def join (separator : String) (path : Path) : String :=
  String.ofList (Text.joinWith separator.toList (path.segments.map String.toList))

def text (path : Path) : String := path.join "."

end Path
end AuditLog
