import MetricWiring.Catalog
import MetricWiring.NamingConfig.File
import MetricWiring.NamingConfig.Layers
import MetricWiring.Proofs.Attribute.GaugeParameters
import MetricWiring.Proofs.DerivedNames
import MetricWiring.Proofs.Inheritance
import MetricWiring.Proofs.Policies
import MetricWiring.Proofs.Reregistration
import MetricWiring.Proofs.SharedGauge
import MetricWiring.Proofs.SourceOrder
import MetricWiring.Proofs.Turns
import MetricWiring.Proofs.GaugeHook
import MetricWiring.Proofs.SearchLog
import MetricWiring.Proofs.WiringLog
import MetricWiring.Proofs.NamingConfig.Decoding
import MetricWiring.Proofs.NamingConfig.FromDocument
import MetricWiring.Proofs.NamingConfig.Layering
import MetricWiring.Proofs.NamingConfig.Loading
import MetricWiring.Proofs.WinningSource
import MetricWiring.Proofs.Attribute.Taking
import MetricWiring.Proofs.Attribute.TypeGrammar
import MetricWiring.Proofs.Attribute.BlockOrder
import MetricWiring.Proofs.Attribute.DefaultNamespace
import MetricWiring.Proofs.DeclarationOrder
import MetricWiring.Proofs.DottedPath
import MetricWiring.Proofs.Cataloguing
import MetricWiring.Proofs.BuilderCalls
