import YastCore.Lib.Exec
import YastCore.Lib.KeyOrder
import YastCore.Value.Basic
import YastCore.Value.Compare
import YastCore.Value.RoundTrip
import YastCore.Value.Order
import YastCore.Value.Index
import YastCore.Value.Sharing
import YastCore.Type.Value
import YastCore.Builtin.String
import YastCore.Builtin.Declaration
import YastCore.Builtin.HexText
import YastCore.Code.Shape
import YastCore.Table.Scopes
import YastCore.Table.Overloads
import YastCore.Interp.BracketTypes
import YastCore.Interp.Loops
import YastCore.Interp.Recursion
import YastCore.Interp.Activation
import YastCore.Interp.Reentrance
import YastCore.Interp.Soundness
import YastCore.Interp.Folding
import YastCore.Interp.SwitchCases
import YastCore.Wfm.Handles
import YastCore.Scr.Lookup
import YastCore.Scr.ConfigFile
import YastCore.Scr.Listing
import YastCore.Process.Output
import YastCore.Resolver.Flush
import YastCore.Modules.Index
import YastCore.Transport.Values
import YastCore.Ini.Merge
import YastCore.Transport.Client
import YastCore.Transport.DataFile
import YastCore.Ini.Scan
import YastCore.Transport.Serial
import YastCore.Code.Loading
import YastCore.Value.Assignment
import YastCore.Ini.Failing
import YastCore.Ini.Whole
import YastCore.Ini.QuoteRoundTrip
import YastCore.Ini.Groups
import YastCore.Ini.Names
import YastCore.Type.Behaviour
import YastCore.Type.Variadic
import YastCore.Type.Equals
import YastCore.Type.Common
import YastCore.Builtin.Overload
import YastCore.Transport.PathText
import YastCore.Transport.ScanBuffer
import YastCore.Type.Signature
import YastCore.Type.Resolution
import YastCore.Builtin.HexText
import YastCore.Builtin.Integer
import YastCore.Builtin.Regexp
import YastCore.Builtin.Merge
import YastCore.Builtin.OrderedSet
import YastCore.Transport.Literals
import YastCore.Interp.NilProtocol
import YastCore.Interp.CallSlots
import YastCore.Builtin.Format
import YastCore.Builtin.Iteration
import YastCore.Value.Xmlcode
import YastCore.AnyAgent.Lookup
import YastCore.Interp.CallResolution
import YastCore.AnyAgent.Alternatives
import YastCore.AnyAgent.Termination
import YastCore.AnyAgent.RawWrites
import YastCore.Util.Split
import YastCore.Util.Pathname
import YastCore.Modules.PathSearch
import YastCore.Builtin.Substitution
import YastCore.Transport.PerlInteger
import YastCore.Transport.ScanStores
import YastCore.Resolver.LineBuffer
import YastCore.Ini.OpenSections
import YastCore.Lib.Mirror
import YastCore.Lib.Forest
import YastCore.Value.Corresponding
import YastCore.Code.Likeness
import YastCore.Code.CopyLike
import YastCore.Interp.Relocation
import YastCore.Interp.Relocated
import YastCore.Interp.Layout
import YastCore.Interp.Reread
import YastCore.Lib.SortedRange
import YastCore.Builtin.Multiset
import YastCore.Lib.StdMap
import YastCore.Builtin.MapContents
import YastCore.Ini.Browse
import YastCore.Transport.PerlReader
import YastCore.Transport.PerlWriter
