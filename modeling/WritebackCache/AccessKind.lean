/-! What a packet asks for. Reads and writes go through the cache; other traffic is accepted and
dropped. -/

namespace WritebackCache

inductive AccessKind
  | read
  | write
  | other
  deriving DecidableEq

namespace AccessKind

def isReadOrWrite : AccessKind → Bool
  | read | write => true
  | other => false

def isWrite : AccessKind → Bool
  | write => true
  | read | other => false

def name : AccessKind → String
  | read => "Read"
  | write => "Write"
  | other => "Other"

/-- Every kind beside the word for it. -/
def spellings : List (String × AccessKind) :=
  [("Read", read), ("Write", write), ("Other", other)]

end AccessKind

end WritebackCache
