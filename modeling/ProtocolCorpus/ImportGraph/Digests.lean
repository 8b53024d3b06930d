import ProtocolCorpus.Digest
import ProtocolCorpus.ImportGraph.Waves

/-!
# Digests along the graph

The digest of a document covers its content and the digests of what it imports.
A document that is in no wave is digested by its content alone, and what depends
on it leaves it out.
-/

namespace ProtocolCorpus

namespace ImportGraph

def contentDigest (g : ImportGraph) (id : Nat) : Text :=
  ((g.node? id).map fun x => x.document.contentDigest).getD []

def addDigest (g : ImportGraph) (known : List (Nat × Text))
    (id : Nat) : List (Nat × Text) :=
  (id, Digest.combine (g.contentDigest id) ((g.targets id).filterMap fun v =>
    known.lookup v)) :: known

def orderedDigests (g : ImportGraph) (w : Waves) : List (Nat × Text) :=
  w.order.reverse.foldl g.addDigest []

def digests (g : ImportGraph) (w : Waves) : List (Nat × Text) :=
  g.orderedDigests w ++ w.left.map fun id =>
    (id, Digest.combine (g.contentDigest id) [])

/-- The digest of a document; the zero digest if it has none. -/
def digestOf (known : List (Nat × Text)) (id : Nat) : Text :=
  (known.lookup id).getD Digest.zero

end ImportGraph

end ProtocolCorpus
