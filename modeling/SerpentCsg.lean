import SerpentCsg.CommandLine
import SerpentCsg.Main
import SerpentCsg.Proofs.Cell.Meaning
import SerpentCsg.Proofs.Draft.Isolation
import SerpentCsg.Proofs.Conversion.Root
import SerpentCsg.Proofs.Exact.Linear
import SerpentCsg.Proofs.Region.RoundTrip
import SerpentCsg.Proofs.Exact.Quadric
import SerpentCsg.Proofs.Exact.Surface
import SerpentCsg.Proofs.Draft.Carrying
import SerpentCsg.Proofs.Exact.Motion
import SerpentCsg.Proofs.Exact.Rigid
import SerpentCsg.Proofs.Exact.Placement
import SerpentCsg.Proofs.Draft.Marking
import SerpentCsg.Proofs.Draft.Boundaries
import SerpentCsg.Proofs.Conversion.Boundaries
import SerpentCsg.Proofs.Identifier
import SerpentCsg.Proofs.Conversion.Nesting
import SerpentCsg.Proofs.Draft.Numbering
import SerpentCsg.Proofs.Output.Document
import SerpentCsg.Proofs.Conversion.Order
import SerpentCsg.Proofs.Input.Inclusion
import SerpentCsg.Proofs.Fallible
import SerpentCsg.Proofs.Geometry.Check
import SerpentCsg.Proofs.Draft.Keys
import SerpentCsg.Proofs.Draft.Conditions
import SerpentCsg.Proofs.Draft.Contents
import SerpentCsg.Proofs.Conversion.Conditions
import SerpentCsg.Proofs.Conversion.Contents
import SerpentCsg.Proofs.Region.Derivation
import SerpentCsg.Proofs.Checked.Scalar
import SerpentCsg.Proofs.Checked.Surface
import SerpentCsg.Proofs.Draft.Degenerate
import SerpentCsg.Proofs.Card.Lattices
import SerpentCsg.Proofs.Card.Layout
import SerpentCsg.Proofs.Draft.Lattices
import SerpentCsg.Proofs.Draft.Putting
import SerpentCsg.Proofs.Draft.SurfaceCards
import SerpentCsg.Proofs.Exact.Composite
import SerpentCsg.Proofs.Exact.Lattice
import SerpentCsg.Proofs.Draft.Residue
import SerpentCsg.Proofs.Card.Runs
import SerpentCsg.Proofs.Geometry.Location
import SerpentCsg.Proofs.Input.Tags
import SerpentCsg.Proofs.Input.Materials
import SerpentCsg.Proofs.Input.Reuse
import SerpentCsg.Proofs.Card.Expression
import SerpentCsg.Proofs.Card.Cells
import SerpentCsg.Proofs.Exact.Plane
import SerpentCsg.Proofs.Draft.Names
import SerpentCsg.Proofs.Conversion.Names
import SerpentCsg.Proofs.Exact.Equation
import SerpentCsg.Proofs.Identifier.Search
import SerpentCsg.Proofs.Output.Escape
