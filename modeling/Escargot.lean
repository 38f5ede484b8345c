import Escargot.Interpreter.ObjectLiteralRefinement
import Escargot.Runtime.HiddenClassFlags
import Escargot.Runtime.HiddenClassSharing
import Escargot.Runtime.CompressibleString
import Escargot.Runtime.ArgumentsObjectRefinement
import Escargot.Runtime.SharedArrayBuffer
import Escargot.Builtins.BuiltinSet
import Escargot.Debugger.ReleaseProtocol
import Escargot.Runtime.AsyncGeneratorObject
import Escargot.Runtime.WaiterList
import Escargot.Runtime.DisposableObject
import Escargot.Parser.ModuleEvaluationOrder
import Escargot.Runtime.ProxyInvariants
import Escargot.Runtime.GlobalObject
import Escargot.Runtime.HashIndexInvariant
import Escargot.Runtime.OwnPropertyKeys
import Escargot.Runtime.WeakMapObject
import Escargot.Sequences.PlainAlgorithms
import Escargot.Sorting.ArraySortAgreement
import Escargot.Text.Utf8Decoding
import Escargot.Text.Substitution
import Escargot.Text.StringBuilder
import Escargot.Text.EscapeSequences
import Escargot.Text.JsonSource
import Escargot.VirtualMachine.ByteCodeStream
import Escargot.VirtualMachine.GlobalVariable
import Escargot.Time.DateSetters
import Escargot.Time.IsoString
import Escargot.Tasks.PromiseReactionJob
import Escargot.Tasks.PromiseCombinators
import Escargot.Traversal.ExportedNames
import Escargot.Transfer.BufferReads
import Escargot.Transfer.CacheStores
import Escargot.Transfer.CacheEviction
import Escargot.Values.StringToNumber
import Escargot.VirtualMachine.LocationData
import Escargot.Time.IsoArithmetic
import Escargot.Time.LocalTime
import Escargot.Time.RoundingIncrement
