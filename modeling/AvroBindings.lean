import AvroBindings.Convert.OfPlain
import AvroBindings.Main
import AvroBindings.Proofs.Convert.Takes
import AvroBindings.Proofs.Convert.Fuel
import AvroBindings.Proofs.Entries
import AvroBindings.Proofs.Json.WellFormed
import AvroBindings.Proofs.Convert.ReadBack
import AvroBindings.Proofs.Convert.Shape
import AvroBindings.Proofs.Table.Reaches
import AvroBindings.Proofs.Convert.RoundTrip
import AvroBindings.Proofs.Convert.Filled
import AvroBindings.Proofs.Convert.Reconversion
import AvroBindings.Proofs.Json.Same
import AvroBindings.Proofs.Schema.Registering
import AvroBindings.Proofs.Schema.Qualified
import AvroBindings.Proofs.Schema.Qualify
import AvroBindings.Proofs.Convert.Language
import AvroBindings.Proofs.Convert.Coercion
import AvroBindings.Proofs.Convert.Absent
import AvroBindings.Proofs.Convert.Extension
import AvroBindings.Proofs.Schema.Nested
import AvroBindings.Proofs.Schema.Members
import AvroBindings.Proofs.Schema.OnlyNames
import AvroBindings.Proofs.Schema.Settled
import AvroBindings.Proofs.Schema.SpelledOut
import AvroBindings.Proofs.Schema.Registry
import AvroBindings.Proofs.Json.Literals
import AvroBindings.Proofs.Json.Text
import AvroBindings.Proofs.NamedType.Codec
import AvroBindings.Proofs.Table.Codec
import AvroBindings.Proofs.Results
import AvroBindings.Proofs.Json.Reading
import AvroBindings.Proofs.Convert.Faults
import AvroBindings.Proofs.Descriptor.References
import AvroBindings.Proofs.NamedType.Described
import AvroBindings.Proofs.Run.Action
import AvroBindings.Proofs.Run.Loading
import AvroBindings.Proofs.Table.Closed
import AvroBindings.Proofs.Declaration.Annotation
import AvroBindings.Proofs.Declaration.Scope
import AvroBindings.Proofs.Declaration.ImportBlock
import AvroBindings.Proofs.Declaration.Display
import AvroBindings.Proofs.Declaration.Arrangement
import AvroBindings.Proofs.Declaration.Literal
import AvroBindings.Proofs.Declaration.Docstring
import AvroBindings.Proofs.Declaration.Comment
import AvroBindings.Proofs.Path
import AvroBindings.Proofs.Name
import AvroBindings.Proofs.Name.Stripped
import AvroBindings.Proofs.Run.Emission
import AvroBindings.Proofs.Run.ImportClosure
import AvroBindings.Proofs.FileTree.Walk
import AvroBindings.Proofs.FileTree.Entering
import AvroBindings.Proofs.FileTree.Directories
import AvroBindings.Proofs.FileTree.Storing
import AvroBindings.Proofs.FileTree.Keeping
import AvroBindings.Proofs.FileTree.Listing
import AvroBindings.Proofs.FileTree.Rewriting
import AvroBindings.Proofs.Run.Files
import AvroBindings.Proofs.Run.Schedule
import AvroBindings.Proofs.Run.Order
import AvroBindings.Proofs.Table.Stripped
import AvroBindings.Proofs.NamedType.Renamed
import AvroBindings.Proofs.Convert.Renamed
import AvroBindings.Proofs.Table.Renamed
import AvroBindings.Proofs.Run.Sets
import AvroBindings.Proofs.Run.Agreement
import AvroBindings.Proofs.Run.Marking
import AvroBindings.Proofs.FileTree.Proper
import AvroBindings.Proofs.Text.Bytes
import AvroBindings.Proofs.FileTree.Ordered
import AvroBindings.Proofs.Run.Visits
import AvroBindings.Proofs.Run.Repetition
import AvroBindings.Proofs.Run.Definitions
import AvroBindings.Proofs.Run.Hidden
import AvroBindings.Proofs.FileTree.Opening
import AvroBindings.Proofs.Run.Interrupted
import AvroBindings.Proofs.Run.Confined
import AvroBindings.Proofs.Run.Packages
import AvroBindings.Proofs.Schema.Inlined
import AvroBindings.Proofs.NamedType.Same
import AvroBindings.Proofs.NamedType.Inlined
import AvroBindings.Proofs.Table.Same
import AvroBindings.Proofs.Run.Inlined
import AvroBindings.Proofs.Manifest
import AvroBindings.Proofs.Convert.Descent
import AvroBindings.Proofs.Convert.Precision
import AvroBindings.Proofs.Convert.Respelled
import AvroBindings.Proofs.Run.GivenUp
import AvroBindings.Proofs.Convert.Reached
import AvroBindings.Proofs.Convert.Location
import AvroBindings.Proofs.Convert.Alike
import AvroBindings.Proofs.Table.Permuted
import AvroBindings.Proofs.Convert.Permuted
import AvroBindings.Proofs.Json.Reordered
import AvroBindings.Proofs.Value.Same
import AvroBindings.Proofs.Convert.Reordered
import AvroBindings.Proofs.Descriptor.Normal
